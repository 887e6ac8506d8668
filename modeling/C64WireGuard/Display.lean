import C64WireGuard.Scripted
import C64WireGuard.SealedTransport

/-!
# What a packet puts on the screen

A decrypted packet is answered with one message string and, but for an echo reply, with its payload or
its text through the filter of `print_buf16`. `display_filtered` says that no other byte reaches
`chrout`. Which of the three it is depends on offsets that a short payload does not reach:
`display_fresh_iff` says for which payloads the answer is the payload's own.
-/

namespace C64WireGuard

open Bytes

variable {σ : Type}

/-! ## The printer -/

theorem emitRun_eq (zpPtr1 y count : Nat) : emitRun zpPtr1 y count = List.range' (zpPtr1 + y) count := by
  induction count generalizing y with
  | zero => rfl
  | succ count ih => rw [emitRun, ih, List.range'_succ, Nat.add_assoc]

theorem emitPages_eq (zpPtr1 pages : Nat) :
    emitPages zpPtr1 pages = (List.range' zpPtr1 (256 * pages), zpPtr1 + 256 * pages) := by
  induction pages generalizing zpPtr1 with
  | zero => rfl
  | succ pages ih =>
      have hlen : 256 * (pages + 1) = 256 + 256 * pages := by omega
      rw [emitPages, ih, emitRun_eq, Nat.add_zero, hlen]
      dsimp only
      rw [List.range'_append_1, Nat.add_assoc]

/-- The two loops read the run once, in order. -/
theorem printBuf16Reads_eq (zpPtr1 len : Nat) :
    printBuf16Reads zpPtr1 len = List.range' zpPtr1 len := by
  have hlen : 256 * (len / 256) + len % 256 = len := Nat.div_add_mod len 256
  rw [printBuf16Reads, emitPages_eq]
  dsimp only
  rw [emitRun_eq, Nat.add_zero, List.range'_append_1, hlen]

/-- With the filter on, what is printed is the run, byte by byte. -/
theorem printBuf16_filtered (tpPacket : Bytes udpRecvBufSize) (zpPtr1 len : Nat) :
    printBuf16 1 tpPacket zpPtr1 len = (slice tpPacket zpPtr1 len).toList.map printable := by
  have hemit : ∀ b, emit 1 b = printable b := fun b => if_neg (by decide)
  rw [printBuf16, printBuf16Reads_eq, toList_slice_range, List.map_map, List.range'_eq_map_range,
    List.map_map]
  exact List.map_congr_left fun i _ => hemit _

/-! ## The screen -/

/-- A call that prints: a message string, or a byte. -/
def Event.shown : Event → Option (Str ⊕ UInt8)
  | .printString s => some (.inl s)
  | .chrout b => some (.inr b)
  | _ => none

/-- Everything printed, oldest first. -/
def screen (m : Machine σ) : List (Str ⊕ UInt8) := (m.trace.filterMap Event.shown).reverse

theorem screen_printString (m : Machine σ) (s : Str) : screen (m.printString s) = screen m ++ [.inl s] := by
  simp [screen, Machine.printString, Machine.log, Event.shown]

theorem screen_chroutAll (m : Machine σ) (bs : List UInt8) :
    screen (m.chroutAll bs) = screen m ++ bs.map .inr := by
  have hshown : (bs.map Event.chrout).filterMap Event.shown = bs.map .inr := by
    rw [List.filterMap_map]
    exact List.filterMap_eq_map (f := fun b => (.inr b : Str ⊕ UInt8)) ▸ rfl
  rw [screen, Machine.chroutAll, List.filterMap_append, List.reverse_append, List.filterMap_reverse,
    List.reverse_reverse, hshown]
  rfl

/-- A message string and characters behind it. -/
def shows (s : Str) (chars : List UInt8) : List (Str ⊕ UInt8) := .inl s :: chars.map .inr

theorem screen_printPacket (m : Machine σ) (s : Str) (off len : Nat) :
    screen (printPacket off len (m.printString s)) =
      screen m ++ shows s ((slice m.tp.tpPacket off len).toList.map printable ++ [0x0d]) := by
  rw [printPacket, screen_chroutAll, screen_printString, printBuf16_filtered, List.append_assoc]
  rfl

theorem screen_endpointUpdate (m : Machine σ) (env : Env σ) :
    screen (endpointUpdate env m) = screen m := by
  rw [endpointUpdate]
  split <;> rfl

/-! ## Routing -/

/-- The three answers to a decrypted packet. -/
theorem screen_routePayload (env : Env σ) (m : Machine σ) :
    (icmpParseReply m.tp = true ∧ screen (routePayload env m) = screen m ++ shows .pingReplyMsg []) ∨
    (icmpParseReply m.tp = false ∧ (udpTunnelParse env.build m.tp m.ip).1 = true ∧
      (routePayload env m).ip = (udpTunnelParse env.build m.tp m.ip).2 ∧
      screen (routePayload env m) = screen m ++ shows .msgRecvHdr
        ((slice m.tp.tpPacket 44 (udpTunnelParse env.build m.tp m.ip).2.msgRecvLen).toList.map
          printable ++ [0x0d])) ∨
    (icmpParseReply m.tp = false ∧ (udpTunnelParse env.build m.tp m.ip).1 = false ∧
      screen (routePayload env m) = screen m ++ shows .recvDataMsg
        ((slice m.tp.tpPacket 16 m.tp.tpPayloadLen).toList.map printable ++ [0x0d])) := by
  have hraw : ∀ m' : Machine σ, m'.tp = m.tp → screen m' = screen m →
      screen (displayPayload m') = screen m ++ shows .recvDataMsg
        ((slice m.tp.tpPacket 16 m.tp.tpPayloadLen).toList.map printable ++ [0x0d]) := by
    intro m' htp hscreen
    rw [displayPayload, screen_printPacket, htp, hscreen]
  rw [routePayload]
  by_cases hicmp : byte m.tp.tpPacket 25 = ipProtoIcmp
  · have hudp : (udpTunnelParse env.build m.tp m.ip).1 = false := by
      rw [udpTunnelParse, if_neg (fun h => absurd (hicmp.symm.trans h.1) (by decide))]
    rw [if_pos hicmp, handleIcmp]
    cases hparse : icmpParseReply m.tp with
    | true =>
        rw [if_pos rfl, screen_printString]
        exact .inl ⟨rfl, rfl⟩
    | false =>
        rw [if_neg Bool.false_ne_true]
        exact .inr (.inr ⟨rfl, hudp, hraw m rfl rfl⟩)
  · have hparse : icmpParseReply m.tp = false := by
      rw [icmpParseReply, beq_eq_false_iff_ne.mpr hicmp, Bool.false_and, Bool.false_and]
    rw [if_neg hicmp, hparse]
    by_cases hudp : byte m.tp.tpPacket 25 = ipProtoUdp
    · rw [if_pos hudp, handleUdp]
      dsimp only
      cases hok : (udpTunnelParse env.build m.tp m.ip).1 with
      | true =>
          have hptr : (udpTunnelParse env.build m.tp m.ip).2.msgRecvPtr = some 44 := by
            rw [udpTunnelParse] at hok ⊢
            split at hok
            · rename_i h
              rw [if_pos h]
              rfl
            · cases hok
          rw [if_pos rfl, hptr, screen_printPacket]
          exact .inr (.inl ⟨rfl, rfl, rfl, rfl⟩)
      | false =>
          rw [if_neg Bool.false_ne_true]
          exact .inr (.inr ⟨rfl, rfl, hraw _ rfl rfl⟩)
    · have hok : (udpTunnelParse env.build m.tp m.ip).1 = false := by
        rw [udpTunnelParse, if_neg (fun h => hudp h.1)]
      rw [if_neg hudp]
      exact .inr (.inr ⟨rfl, hok, hraw m rfl rfl⟩)

/-- A text that is displayed lies in the payload, behind the headers. -/
theorem udpTunnelParse_bound {build : Build} {tp : TpMem} {ip : IpMem}
    (h : (udpTunnelParse build tp ip).1 = true) :
    (udpTunnelParse build tp ip).2.msgRecvLen + 28 ≤ tp.tpPayloadLen := by
  rw [udpTunnelParse] at h ⊢
  split at h
  · rename_i hport
    rw [if_pos hport]
    exact (of_decide_eq_true h).2.2
  · cases h

/-! ## Authentic packets -/

/-- The machine once the packet is taken: `udp_recv_ready` is cleared. -/
def Machine.taken (m : Machine σ) : Machine σ := { m with udp := { m.udp with udpRecvReady := false } }

/-- The transport cells once the packet is decrypted. -/
def decrypted (env : Env σ) (m : Machine σ) : TpMem := (callTransportDecrypt env m.taken).2.tp

/-- A Type 4 packet in `ACTIVE` that `transport_decrypt` accepts and that carries `payload`. -/
structure Authentic (env : Env σ) (m : Machine σ) (payload : List UInt8) : Prop where
  active : m.wgState = .active
  type : byte m.udp.udpRecvBuf 0 = 4
  accepted : (callTransportDecrypt env m.taken).1 = true
  payload : (slice (decrypted env m).tpPacket 16 (decrypted env m).tpPayloadLen).toList = payload

/-- What `session_handle_packet` prints. -/
def packetOutput (env : Env σ) (m : Machine σ) : List (Str ⊕ UInt8) :=
  (screen (sessionHandlePacket env m)).drop (screen m).length

namespace Authentic

variable {env : Env σ} {m : Machine σ} {payload : List UInt8}

theorem payloadLen (h : Authentic env m payload) : (decrypted env m).tpPayloadLen = payload.length := by
  rw [← h.payload, Vector.length_toList]

/-- The payload of a datagram. -/
theorem length_le (h : Authentic env m payload) : payload.length ≤ 1468 := by
  have haccepted := h.accepted
  rw [(callTransportDecrypt_eq env m.taken).1] at haccepted
  have hlen := h.payloadLen
  rw [decrypted, (callTransportDecrypt_eq env m.taken).2] at hlen
  have hmax := m.taken.udp.udpRecvLen_le
  unfold udpRecvBufSize at hmax
  obtain ⟨-, lo, hi, c', heq, -⟩ | ⟨-, _, _, heq, -⟩ := transportDecrypt_cases env.prims
    m.taken.hs.hsTransportRecv m.taken.udp m.taken.hs.toCryptoMem m.taken.arrived
  · rw [heq] at hlen
    have hpaylen := (windowUpdate_packet (decryptedMem env.prims m.taken.hs.hsTransportRecv m.taken.udp
      m.taken.arrived lo hi)).2
    rw [hpaylen] at hlen
    change m.taken.udp.udpRecvLen - 32 = payload.length at hlen
    omega
  · rw [heq] at haccepted
    cases haccepted

/-- The bytes of the payload in `tp_packet`. -/
theorem byte_payload (h : Authentic env m payload) {i : Nat} (hi : i < payload.length) :
    byte (decrypted env m).tpPacket (16 + i) = payload.getD i 0 := by
  rw [← h.payload, getD_toList, byte_slice, if_pos (by rwa [h.payloadLen])]

/-- The machine that routes the packet. -/
def routed (env : Env σ) (m : Machine σ) : Machine σ :=
  endpointUpdate env (callTransportDecrypt env m.taken).2

theorem sessionHandlePacket_eq (h : Authentic env m payload) :
    sessionHandlePacket env m = routePayload env (routed env m) := by
  have hactive : m.taken.wgState = .active := h.active
  have htype : byte m.taken.udp.udpRecvBuf 0 = 4 := h.type
  have hhandle : sessionHandlePacket env m = handleType4 env m.taken := by
    rw [sessionHandlePacket]
    dsimp only
    change (if byte m.taken.udp.udpRecvBuf 0 = 2 then _ else if byte m.taken.udp.udpRecvBuf 0 = 3 then _
      else if byte m.taken.udp.udpRecvBuf 0 = 4 then handleType4 env m.taken else _) = _
    rw [htype, if_neg (by decide), if_neg (by decide), if_pos rfl]
  rw [hhandle, handleType4, if_pos hactive]
  dsimp only
  rw [if_pos h.accepted]
  rfl

theorem tp_routed (env : Env σ) (m : Machine σ) : (routed env m).tp = decrypted env m := by
  rw [routed, endpointUpdate]
  split <;> rfl

theorem screen_routed (env : Env σ) (m : Machine σ) : screen (routed env m) = screen m := by
  rw [routed, screen_endpointUpdate]
  rfl

end Authentic

/-! ## A packet that arrives -/

/-- A fresh window admits the first counter. -/
theorem admits_fresh {t : TpMem} (hbitmap : t.rwBitmap = zero 256) (hmax : t.rwCounterMax = zero 8) :
    ReplayWindow.admits c64Policy (window t) (le (zero 8)) = true := by
  have hwindow : window t = window .start := by
    rw [window, window, hbitmap, hmax]
    rfl
  rw [hwindow, le_zero]
  decide +kernel

/-- A session under the key of zeros that receives a packet. -/
def receiving (packet : List UInt8) (hlen : packet.length ≤ udpRecvBufSize) : Machine Script :=
  { scriptedStart [] with
    wgState := .active
    udp :=
      { udpRecvBuf := ofList _ packet
        udpRecvLen := packet.length
        udpRecvLen_le := hlen
        udpRecvSrc := .start
        udpRecvReady := true } }

/-- The first packet its peer seals is authentic. -/
theorem receiving_authentic {n : Nat} (hn : n ≤ 1468) {payload ciphertext : Bytes n} {tag : Bytes 16}
    (henc : rfcPrims.aeadEncrypt (zero 32) (transportBuildNonce (zero 8)) [] payload =
      some (ciphertext, tag))
    (hlen : (sealedPacket (zero 4) (zero 8) ciphertext tag).length ≤ udpRecvBufSize) :
    Authentic scripted (receiving _ hlen) payload.toList := by
  have hlength : (sealedPacket (zero 4) (zero 8) ciphertext tag).length = n + 32 := by
    simp [sealedPacket]
    omega
  generalize hpacket : sealedPacket (zero 4) (zero 8) ciphertext tag = packet at *
  have hudp : (receiving packet hlen).taken.udp.udpRecvLen = n + 32 := hlength
  have hpkt : (slice (receiving packet hlen).taken.udp.udpRecvBuf 0 (n + 32)).toList =
      sealedPacket (zero 4) (zero 8) ciphertext tag := by
    rw [hpacket, ← hlength]
    exact toList_slice_ofList rfl hlen
  have hctr : le (zero 8) < 2 ^ 60 := by
    rw [le_zero]
    decide
  obtain ⟨haccepted, hdelivered⟩ := transportDecrypt_sealed rfcPrims_aeadInverts hn henc hctr hudp
    hpkt (receiving packet hlen).taken.hs.toCryptoMem
    (admits_fresh (t := (receiving packet hlen).taken.arrived) rfl rfl)
  obtain ⟨hok, htp⟩ := callTransportDecrypt_eq scripted (receiving packet hlen).taken
  refine ⟨rfl, ?_, hok.trans haccepted, ?_⟩
  · show byte (ofList udpRecvBufSize packet) 0 = 4
    rw [byte_ofList, ← hpacket]
    rfl
  · rw [decrypted, htp]
    exact hdelivered.toList

/-! ## Peer bytes cannot drive the display -/

/-- A run of the payload in `tp_packet`. -/
theorem Authentic.run {env : Env σ} {m : Machine σ} {payload : List UInt8} (h : Authentic env m payload)
    (off : Nat) {n : Nat} (hfit : off + n ≤ payload.length) :
    (slice (decrypted env m).tpPacket (16 + off) n).toList = (payload.drop off).take n := by
  rw [← h.payloadLen] at hfit
  rw [← h.payload, ← toList_slice _ hfit, slice_slice _ _ hfit]

/-- **Peer bytes cannot drive the display.** Behind the message string comes nothing, or the payload, or
the text of the UDP datagram, each byte through the filter, and one CR; and every byte that is
printed is read from the payload. -/
theorem display_filtered {env : Env σ} {m : Machine σ} {payload : List UInt8}
    (h : Authentic env m payload) :
    ∃ s chars, packetOutput env m = shows s chars ∧
      ((s = .pingReplyMsg ∧ chars = []) ∨
        ∃ zpPtr1 len text, chars = text.map printable ++ [0x0d] ∧ text.length = len ∧
          text = (printBuf16Reads zpPtr1 len).map (byte (decrypted env m).tpPacket) ∧
          (∀ a ∈ printBuf16Reads zpPtr1 len, 16 ≤ a ∧ a < 16 + (decrypted env m).tpPayloadLen) ∧
          ((s = .recvDataMsg ∧ len = (decrypted env m).tpPayloadLen ∧ text = payload) ∨
            (s = .msgRecvHdr ∧ len = (sessionHandlePacket env m).ip.msgRecvLen ∧
              text = (payload.drop 28).take len))) := by
  have hprefix : ∀ out, screen (sessionHandlePacket env m) = screen m ++ out →
      packetOutput env m = out := by
    intro out hout
    rw [packetOutput, hout, List.drop_left]
  have hreads : ∀ ptr len, (slice (decrypted env m).tpPacket ptr len).toList =
      (printBuf16Reads ptr len).map (byte (decrypted env m).tpPacket) := by
    intro ptr len
    rw [toList_slice_range, printBuf16Reads_eq, List.range'_eq_map_range, List.map_map]
    rfl
  have hroute := screen_routePayload env (Authentic.routed env m)
  rw [← h.sessionHandlePacket_eq, Authentic.tp_routed, Authentic.screen_routed] at hroute
  obtain ⟨-, hscreen⟩ | ⟨-, hok, hip, hscreen⟩ | ⟨-, -, hscreen⟩ := hroute
  · exact ⟨_, _, hprefix _ hscreen, .inl ⟨rfl, rfl⟩⟩
  · have hbound := udpTunnelParse_bound hok
    rw [← hip] at hbound hscreen
    rw [h.payloadLen] at hbound
    refine ⟨_, _, hprefix _ hscreen, .inr ⟨44, _, _, rfl, Vector.length_toList, hreads _ _, ?_,
      .inr ⟨rfl, rfl, h.run 28 (by omega)⟩⟩⟩
    intro a ha
    rw [printBuf16Reads_eq, List.mem_range'_1] at ha
    rw [h.payloadLen]
    omega
  · refine ⟨_, _, hprefix _ hscreen, .inr ⟨16, _, _, rfl, Vector.length_toList, hreads _ _, ?_,
      .inl ⟨rfl, rfl, h.payload⟩⟩⟩
    intro a ha
    rwa [printBuf16Reads_eq, List.mem_range'_1] at ha

theorem printable_range (b : UInt8) : 0x20 ≤ printable b ∧ printable b < 0x7f := by
  obtain ⟨⟨n⟩⟩ := b
  revert n
  decide +kernel

/-- `$93` clears the screen; a peer that sends it does not. -/
theorem display_filtered_clear :
    ∃ m, Authentic scripted m [0x93] ∧
      ∃ s chars, packetOutput scripted m = shows s chars ∧
        ∀ b ∈ chars, b = 0x0d ∨ 0x20 ≤ b ∧ b < 0x7f := by
  obtain ⟨⟨ct, tag⟩, henc⟩ := Option.isSome_iff_exists.mp
    (rfcPrims_accepts (zero 32) (transportBuildNonce (zero 8)) [] (#v[0x93] : Bytes 1))
  have hlen : (sealedPacket (zero 4) (zero 8) ct tag).length ≤ udpRecvBufSize := by
    simp [sealedPacket, udpRecvBufSize]
  have hauth := receiving_authentic (by decide) henc hlen
  obtain ⟨s, chars, hout, ⟨-, rfl⟩ | ⟨_, _, text, rfl, -⟩⟩ := display_filtered hauth
  · exact ⟨_, hauth, s, [], hout, fun b hb => absurd hb List.not_mem_nil⟩
  · refine ⟨_, hauth, s, _, hout, fun b hb => ?_⟩
    rcases List.mem_append.mp hb with htext | hcr
    · obtain ⟨a, -, rfl⟩ := List.mem_map.mp htext
      exact .inr (printable_range a)
    · exact .inl (List.mem_singleton.mp hcr)

/-! ## What a payload says -/

/-- The bytes of an echo reply that carries `WG_ICMP_ID`, by their offset. -/
def echoReplyBytes : List (Nat × UInt8) := [(9, ipProtoIcmp), (20, 0), (24, 0xc6), (25, 0x40)]

/-- The payload is such a reply. -/
def EchoReply (payload : List UInt8) : Prop :=
  28 ≤ payload.length ∧ ∀ x ∈ echoReplyBytes, payload.getD x.1 0 = x.2

/-- The payload is a message to `msg_port`. -/
def TextMessage (build : Build) (payload : List UInt8) : Prop :=
  let udpLen := beNat ((payload.drop 24).take 2)
  payload.getD 9 0 = ipProtoUdp ∧ (payload.drop 22).take 2 = build.msgPort.toList ∧
    udpHdrLen ≤ udpLen ∧ udpLen - udpHdrLen ≤ msgTextMax build ∧
    udpLen - udpHdrLen + ipUdpHdrLen ≤ payload.length

instance (payload : List UInt8) : Decidable (EchoReply payload) :=
  inferInstanceAs (Decidable (_ ∧ _))

instance (build : Build) (payload : List UInt8) : Decidable (TextMessage build payload) :=
  inferInstanceAs (Decidable (_ ∧ _ ∧ _ ∧ _ ∧ _))

/-- The answer to a payload, told from the payload alone. -/
def payloadOutput (build : Build) (payload : List UInt8) : List (Str ⊕ UInt8) :=
  if EchoReply payload then shows .pingReplyMsg []
  else if TextMessage build payload then
    shows .msgRecvHdr (((payload.drop 28).take (beNat ((payload.drop 24).take 2) - udpHdrLen)).map
      printable ++ [0x0d])
  else shows .recvDataMsg (payload.map printable ++ [0x0d])

/-- The payload itself says whether it is an echo reply: it is long enough, or one of its own bytes is
wrong. -/
def Decided (payload : List UInt8) : Prop :=
  28 ≤ payload.length ∨
    ∃ x ∈ echoReplyBytes, x.1 < payload.length ∧ payload.getD x.1 0 ≠ x.2

theorem icmpParseReply_iff (tp : TpMem) :
    icmpParseReply tp = true ↔ ∀ x ∈ echoReplyBytes, byte tp.tpPacket (16 + x.1) = x.2 := by
  have hid : slice tp.tpPacket 40 2 = wgIcmpId ↔
      byte tp.tpPacket 40 = 0xc6 ∧ byte tp.tpPacket 41 = 0x40 := by
    rw [← toList_inj, toList_slice_range]
    show [byte tp.tpPacket 40, byte tp.tpPacket 41] = [0xc6, 0x40] ↔ _
    simp
  simp only [icmpParseReply, Bool.and_eq_true, beq_iff_eq, hid, echoReplyBytes, List.forall_mem_cons,
    List.not_mem_nil, false_implies, implies_true, and_true, and_assoc]

namespace Authentic

variable {env : Env σ} {m : Machine σ} {payload : List UInt8}

theorem icmp_iff (h : Authentic env m payload) (hd : Decided payload) :
    icmpParseReply (decrypted env m) = true ↔ EchoReply payload := by
  rw [icmpParseReply_iff]
  rcases hd with hlong | ⟨x, hx, hlt, hne⟩
  · have hoffsets : ∀ x ∈ echoReplyBytes, x.1 < 28 := by decide
    have hsame : ∀ x ∈ echoReplyBytes, byte (decrypted env m).tpPacket (16 + x.1) =
        payload.getD x.1 0 :=
      fun x hx => h.byte_payload (Nat.lt_of_lt_of_le (hoffsets x hx) hlong)
    constructor
    · exact fun hbytes => ⟨hlong, fun x hx => (hsame x hx).symm.trans (hbytes x hx)⟩
    · exact fun hreply x hx => (hsame x hx).trans (hreply.2 x hx)
  · refine iff_of_false (fun hbytes => hne ?_) (fun hreply => hne (hreply.2 x hx))
    rw [← h.byte_payload hlt, hbytes x hx]

/-- The parser of messages does not look beyond a payload that it accepts. -/
theorem udp_iff (h : Authentic env m payload) (ip : IpMem) :
    ((udpTunnelParse env.build (decrypted env m) ip).1 = true ↔ TextMessage env.build payload) ∧
      ((udpTunnelParse env.build (decrypted env m) ip).1 = true →
        (udpTunnelParse env.build (decrypted env m) ip).2.msgRecvLen =
          beNat ((payload.drop 24).take 2) - udpHdrLen) := by
  by_cases hlong : 28 ≤ payload.length
  · have hproto : byte (decrypted env m).tpPacket 25 = payload.getD 9 0 :=
      h.byte_payload (i := 9) (by omega)
    have hport : slice (decrypted env m).tpPacket 38 2 = env.build.msgPort ↔
        (payload.drop 22).take 2 = env.build.msgPort.toList := by
      rw [← toList_inj, ← h.run 22 (n := 2) (by omega)]
    have hudp : be (slice (decrypted env m).tpPacket 40 2) = beNat ((payload.drop 24).take 2) := by
      rw [be, ← h.run 24 (n := 2) (by omega)]
    have hlt := be_lt (slice (decrypted env m).tpPacket 40 2)
    rw [hudp] at hlt
    have hrecv : udpHdrLen ≤ beNat ((payload.drop 24).take 2) →
        (beNat ((payload.drop 24).take 2) + 65536 - udpHdrLen) % 65536 =
          beNat ((payload.drop 24).take 2) - udpHdrLen := by
      intro hle
      unfold udpHdrLen at *
      omega
    rw [udpTunnelParse, TextMessage, ← hport, hproto, hudp, h.payloadLen]
    dsimp only
    split
    · rename_i hhead
      rw [decide_eq_true_iff]
      constructor
      · constructor
        · rintro ⟨hle, hmax, hfit⟩
          rw [hrecv hle] at hmax hfit
          exact ⟨hhead.1, hhead.2, hle, hmax, hfit⟩
        · rintro ⟨-, -, hle, hmax, hfit⟩
          rw [hrecv hle]
          exact ⟨hle, hmax, hfit⟩
      · exact fun hok => hrecv hok.1
    · rename_i hhead
      exact ⟨iff_of_false Bool.false_ne_true fun ht => hhead ⟨ht.1, ht.2.1⟩,
        fun hok => absurd hok Bool.false_ne_true⟩
  · -- neither accepts a payload without room for the headers
    have hno : (udpTunnelParse env.build (decrypted env m) ip).1 ≠ true := by
      intro hok
      have hbound := udpTunnelParse_bound hok
      rw [h.payloadLen] at hbound
      omega
    refine ⟨iff_of_false hno fun ht => ?_, fun hok => absurd hok hno⟩
    have hfit := ht.2.2.2.2
    unfold ipUdpHdrLen at hfit
    omega

/-- The answer to a payload that decides it. -/
theorem output (h : Authentic env m payload) (hd : Decided payload) :
    packetOutput env m = payloadOutput env.build payload := by
  have hicmp := h.icmp_iff hd
  have hudp := h.udp_iff (routed env m).ip
  have hroute := screen_routePayload env (routed env m)
  rw [← h.sessionHandlePacket_eq, tp_routed, screen_routed] at hroute
  rw [packetOutput]
  obtain ⟨hreply, hscreen⟩ | ⟨hreply, hok, -, hscreen⟩ | ⟨hreply, hok, hscreen⟩ := hroute
  · rw [hscreen, List.drop_left, payloadOutput, if_pos (hicmp.mp hreply)]
  · have hno : ¬ EchoReply payload := fun he => by
      rw [hicmp.mpr he] at hreply
      cases hreply
    have htext := hudp.1.mp hok
    rw [hscreen, List.drop_left, payloadOutput, if_neg hno, if_pos htext, hudp.2 hok]
    have hfit := htext.2.2.2.2
    unfold ipUdpHdrLen at hfit
    rw [h.run 28 (by omega)]
  · have hno : ¬ EchoReply payload := fun he => by
      rw [hicmp.mpr he] at hreply
      cases hreply
    have hnotext : ¬ TextMessage env.build payload := fun ht => by
      rw [hudp.1.mpr ht] at hok
      cases hok
    rw [hscreen, List.drop_left, payloadOutput, if_neg hno, if_neg hnotext, h.payload]

end Authentic

/-- `PING REPLY` is reported when `icmp_parse_reply` says so. -/
theorem Authentic.ping_iff {env : Env σ} {m : Machine σ} {payload : List UInt8}
    (h : Authentic env m payload) :
    .inl .pingReplyMsg ∈ packetOutput env m ↔ icmpParseReply (decrypted env m) = true := by
  have hother : ∀ s chars, s ≠ Str.pingReplyMsg → .inl .pingReplyMsg ∉ shows s chars := by
    intro s chars hs hmem
    rcases List.mem_cons.mp hmem with hhead | htail
    · exact hs (Sum.inl.inj hhead).symm
    · obtain ⟨b, -, hb⟩ := List.mem_map.mp htail
      cases hb
  have hroute := screen_routePayload env (routed env m)
  rw [← h.sessionHandlePacket_eq, tp_routed, screen_routed] at hroute
  rw [packetOutput]
  obtain ⟨hreply, hscreen⟩ | ⟨hreply, -, -, hscreen⟩ | ⟨hreply, -, hscreen⟩ := hroute
  · rw [hscreen, List.drop_left]
    exact iff_of_true List.mem_cons_self hreply
  · rw [hscreen, List.drop_left, hreply]
    exact iff_of_false (hother _ _ (by decide)) Bool.false_ne_true
  · rw [hscreen, List.drop_left, hreply]
    exact iff_of_false (hother _ _ (by decide)) Bool.false_ne_true

/-! ## When a short payload is displayed as what it is -/

/-- The answer to this payload is its own: any two packets that carry it print the same, and
`PING REPLY` means an echo reply. -/
def DisplayFresh (payload : List UInt8) : Prop :=
  (∀ (σ : Type) (env : Env σ) (m₁ m₂ : Machine σ), Authentic env m₁ payload →
    Authentic env m₂ payload → packetOutput env m₁ = packetOutput env m₂) ∧
  ∀ (σ : Type) (env : Env σ) (m : Machine σ), Authentic env m payload →
    .inl .pingReplyMsg ∈ packetOutput env m → EchoReply payload

/-- The RFC's primitives, but for an AEAD that accepts every packet as it is. -/
def trusting : Env Script :=
  { scripted with prims := { rfcPrims with aeadDecrypt := fun _ _ _ {_} data _ => (true, data) } }

/-- A packet with this payload, in a buffer that goes on as an echo reply does. -/
def staleBuf (payload : List UInt8) : Bytes udpRecvBufSize :=
  tabulate _ fun i =>
    if i = 0 then 4
    else if i < 16 then 0
    else if i - 16 < payload.length then payload.getD (i - 16) 0
    else (echoReplyBytes.lookup (i - 16)).getD 0

theorem byte_staleBuf {payload : List UInt8} (hlen : payload.length ≤ 1468) {i : Nat}
    (hi : i < payload.length) : byte (staleBuf payload) (16 + i) = payload.getD i 0 := by
  have hlt : 16 + i < udpRecvBufSize := by
    unfold udpRecvBufSize
    omega
  rw [staleBuf, byte_tabulate, if_pos hlt, if_neg (by omega), if_neg (by omega), if_pos (by omega),
    Nat.add_sub_cancel_left]

theorem byte_staleBuf_behind {payload : List UInt8} {i : Nat} (hi : ¬ i < payload.length)
    (hlt : i < 28) : byte (staleBuf payload) (16 + i) = (echoReplyBytes.lookup i).getD 0 := by
  have hlt' : 16 + i < udpRecvBufSize := by
    unfold udpRecvBufSize
    omega
  rw [staleBuf, byte_tabulate, if_pos hlt', if_neg (by omega), if_neg (by omega), if_neg (by omega),
    Nat.add_sub_cancel_left]

/-- A session whose buffers hold it. -/
def staleMachine {payload : List UInt8} (hlen : payload.length ≤ 1468) : Machine Script :=
  { scriptedStart [] with
    wgState := .active
    udp :=
      { udpRecvBuf := staleBuf payload
        udpRecvLen := payload.length + 32
        udpRecvLen_le := by unfold udpRecvBufSize; omega
        udpRecvSrc := .start
        udpRecvReady := true }
    tp := { TpMem.start with tpPacket := staleBuf payload } }

/-- It is accepted, and decrypting changes nothing. -/
theorem staleMachine_authentic {payload : List UInt8} (hlen : payload.length ≤ 1468) :
    Authentic trusting (staleMachine hlen) payload ∧
      (decrypted trusting (staleMachine hlen)).tpPacket = staleBuf payload := by
  have hsize : udpRecvBufSize = 1500 := rfl
  have hbuf : (staleMachine hlen).taken.udp.udpRecvBuf = staleBuf payload := rfl
  have hudp : (staleMachine hlen).taken.udp.udpRecvLen = payload.length + 32 := rfl
  have htype : byte (staleBuf payload) 0 = 4 := by
    rw [staleBuf, byte_tabulate, if_pos (by decide), if_pos rfl]
  have hcounter : packetCounter (staleMachine hlen).taken.udp = zero 8 := by
    apply ext_byte
    intro i hi
    rw [packetCounter, hbuf, byte_slice, if_pos hi, byte_zero, staleBuf, byte_tabulate,
      if_pos (by omega), if_neg (by omega), if_pos (by omega)]
  have hauth : authentic trusting.prims (staleMachine hlen).taken.hs.hsTransportRecv
      (staleMachine hlen).taken.udp = true := by
    rw [authentic, hudp, decide_eq_true (by omega)]
    rfl
  have hacc : accepts trusting.prims (staleMachine hlen).taken.hs.hsTransportRecv
      (staleMachine hlen).taken.udp (staleMachine hlen).taken.arrived = true := by
    rw [accepts, hbuf, htype, hcounter, admits_fresh rfl rfl, hauth, le_zero]
    rfl
  have harrived : (staleMachine hlen).taken.arrived.tpPacket = staleBuf payload := copyIn_slice_self _ _ _
  have hcall := callTransportDecrypt_eq trusting (staleMachine hlen).taken
  obtain ⟨-, lo, hi, c', heq, -⟩ | ⟨hno, -⟩ := transportDecrypt_cases trusting.prims
    (staleMachine hlen).taken.hs.hsTransportRecv (staleMachine hlen).taken.udp
    (staleMachine hlen).taken.hs.toCryptoMem (staleMachine hlen).taken.arrived
  swap
  · rw [hacc] at hno
    cases hno
  rw [heq] at hcall
  obtain ⟨hpacket, hpaylen⟩ := windowUpdate_packet (decryptedMem trusting.prims
    (staleMachine hlen).taken.hs.hsTransportRecv (staleMachine hlen).taken.udp
    (staleMachine hlen).taken.arrived lo hi)
  have hsame : (decrypted trusting (staleMachine hlen)).tpPacket = staleBuf payload := by
    rw [decrypted, hcall.2, hpacket]
    show copyIn (copyIn (staleMachine hlen).taken.arrived.tpPacket 16 (slice (staleBuf payload) 16 _)) 16
      (slice (staleBuf payload) 16 _) = _
    rw [harrived, copyIn_slice_self, copyIn_slice_self]
  have hpayload : (decrypted trusting (staleMachine hlen)).tpPayloadLen = payload.length := by
    rw [decrypted, hcall.2, hpaylen]
    exact Nat.add_sub_cancel _ _
  refine ⟨⟨rfl, htype, hcall.1, ?_⟩, hsame⟩
  rw [hsame, hpayload]
  apply List.ext_getElem
  · simp
  · intro i h₁ h₂
    have hget := getD_toList (slice (staleBuf payload) 16 payload.length) i
    rw [byte_slice, if_pos h₂, byte_staleBuf hlen h₂, List.getD_eq_getElem _ _ h₂,
      List.getD_eq_getElem _ _ h₁] at hget
    exact hget

/-- **When what is displayed is the packet's own**: when the payload is long enough for the headers, or
one of its own bytes rules out an echo reply. Otherwise the bytes behind it are taken for its
continuation. -/
theorem display_fresh_iff {payload : List UInt8} (hlen : payload.length ≤ 1468) :
    DisplayFresh payload ↔ Decided payload := by
  constructor
  · intro hfresh
    by_contra hno
    obtain ⟨hauth, hpacket⟩ := staleMachine_authentic hlen
    have hreply : icmpParseReply (decrypted trusting (staleMachine hlen)) = true := by
      rw [icmpParseReply_iff, hpacket]
      intro x hx
      have hoff : ∀ x ∈ echoReplyBytes, x.1 < 28 ∧ (echoReplyBytes.lookup x.1).getD 0 = x.2 := by
        decide
      obtain ⟨hlt, hlook⟩ := hoff x hx
      by_cases hin : x.1 < payload.length
      · rw [byte_staleBuf hlen hin]
        by_contra hne
        exact hno (.inr ⟨x, hx, hin, hne⟩)
      · rw [byte_staleBuf_behind hin hlt, hlook]
    exact hno (.inl (hfresh.2 _ trusting _ hauth (hauth.ping_iff.mpr hreply)).1)
  · intro hd
    refine ⟨fun σ env m₁ m₂ h₁ h₂ => ?_, fun σ env m h hping => ?_⟩
    · rw [h₁.output hd, h₂.output hd]
    · exact (h.icmp_iff hd).mp (h.ping_iff.mp hping)

/-- What an empty keepalive prints is not its own. -/
theorem display_fresh_iff_keepalive : ¬ DisplayFresh [] := by
  rw [display_fresh_iff (Nat.zero_le _)]
  rintro (hlong | ⟨x, -, hlt, -⟩)
  · exact absurd hlong (by decide)
  · exact Nat.not_lt_zero _ hlt

/-- 26 bytes, as an echo reply begins. -/
def shortReply : Bytes 26 := put (put (put (zero 26) 9 ipProtoIcmp) 24 0xc6) 25 0x40

/-- So a payload of 26 bytes is reported as an echo reply. -/
theorem display_shortReply :
    ∃ m, Authentic scripted m shortReply.toList ∧ .inl .pingReplyMsg ∈ packetOutput scripted m ∧
      ¬ EchoReply shortReply.toList := by
  obtain ⟨⟨ct, tag⟩, henc⟩ := Option.isSome_iff_exists.mp
    (rfcPrims_accepts (zero 32) (transportBuildNonce (zero 8)) [] shortReply)
  have hlen : (sealedPacket (zero 4) (zero 8) ct tag).length ≤ udpRecvBufSize := by
    simp [sealedPacket, udpRecvBufSize]
  have hauth := receiving_authentic (by decide) henc hlen
  generalize receiving _ hlen = m at *
  refine ⟨m, hauth, hauth.ping_iff.mpr ?_, ?_⟩
  · have hbytes : ∀ x ∈ echoReplyBytes, x.1 < 26 ∧ shortReply.toList.getD x.1 0 = x.2 := by
      decide +kernel
    rw [icmpParseReply_iff]
    intro x hx
    rw [hauth.byte_payload (by rw [Vector.length_toList]; exact (hbytes x hx).1)]
    exact (hbytes x hx).2
  · rintro ⟨hlong, -⟩
    rw [Vector.length_toList] at hlong
    omega

end C64WireGuard
