import C64WireGuard.ResponderTransport

/-!
# Type 4 packets from end to end

What leaves `transport_send` is complete: `transport_encrypt` refuses with an empty packet, and over any
sequence of calls each datagram is the packet its own call has just sealed (`transportSend_complete`).
What arrives complete is read back: the bytes of a sealed packet, delivered to a receiver with the
same key, leave it the payload (`transport_roundTrip`).
-/

namespace C64WireGuard

open Bytes ReplayWindow

variable {σ : Type} {p : Primitives}

/-! ## Refusals -/

theorem rejectCounter_iff (c : Bytes 8) : rejectCounterB7 ≤ byte c 7 ↔ 2 ^ 60 ≤ le c := by
  have h := top_byte_lt_iff c
  rw [← not_iff_not, h, Nat.not_le]

/-- The two reasons to refuse. -/
def Refused (p : Primitives) (key : Bytes 32) (payload : Bytes udpRecvBufSize) (t : TpMem) : Prop :=
  2 ^ 60 ≤ le t.tpSendCounter ∨
    p.aeadEncrypt key (transportBuildNonce t.tpSendCounter) []
      (slice (encryptStage payload t) 16 t.tpPayloadLen) = none

/-- The carry says that there was a reason, and behind it there is no packet to send. -/
theorem transportEncrypt_refused (p : Primitives) (key : Bytes 32) (payload : Bytes udpRecvBufSize)
    (c : CryptoMem) (t : TpMem) :
    let r := transportEncrypt p key payload c t
    (r.2.2.1 = true ↔ Refused p key payload t) ∧
      (r.2.2.1 = true → r.2.1.tpPacketLen = 0 ∧ r.2.1.tpSendCounter = t.tpSendCounter ∧
        r.2.1.tpEncryptError = if 2 ^ 60 ≤ le t.tpSendCounter then 1 else 0) := by
  intro r
  have hr : r = transportEncrypt p key payload c t := rfl
  rw [transportEncrypt] at hr
  dsimp only at hr
  split at hr
  · rename_i hlim
    have h60 := (rejectCounter_iff _).mp hlim
    rw [hr, if_pos h60]
    exact ⟨iff_of_true rfl (.inl h60), fun _ => ⟨rfl, rfl, rfl⟩⟩
  · rename_i hlim
    have h60 := fun h => hlim ((rejectCounter_iff _).mpr h)
    split at hr
    · rename_i henc
      rw [hr, if_neg h60]
      exact ⟨iff_of_true rfl (.inr henc), fun _ => ⟨rfl, rfl, rfl⟩⟩
    · rename_i ct tag henc
      rw [hr]
      refine ⟨iff_of_false Bool.false_ne_true ?_, fun h => absurd h Bool.false_ne_true⟩
      rintro (h | h)
      · exact h60 h
      · exact Option.some_ne_none _ (henc.symm.trans h)

/-! ## Sequences of calls -/

/-- The bytes of a sealed packet. -/
def sealedPacket {n : Nat} (idx : Bytes 4) (counter : Bytes 8) (ciphertext : Bytes n) (tag : Bytes 16) :
    List UInt8 :=
  [4, 0, 0, 0] ++ idx.toList ++ counter.toList ++ (ciphertext.toList ++ tag.toList)

/-- What a call of `transport_send` on `m` logs, newest first: nothing when it is refused, and otherwise
one datagram, sealed from its own payload under its own key and counter right before. -/
inductive CallLog (env : Env σ) (sender : Sender) (m : Machine σ) : List Event → Prop
  | refused (h : env.build.wgMtu < m.tp.tpPayloadLen ∨
      Refused env.prims m.hs.hsTransportSend (payloadBytes m) m.tp) : CallLog env sender m []
  | sent {ciphertext : Bytes m.tp.tpPayloadLen} {tag : Bytes 16} (carry : Bool)
      (hsealed : env.prims.aeadEncrypt m.hs.hsTransportSend
        (transportBuildNonce m.tp.tpSendCounter) [] (slice (payloadBytes m) 0 m.tp.tpPayloadLen) =
          some (ciphertext, tag)) :
      CallLog env sender m
        [.netUdpSend m.wgPeer
            (sealedPacket m.tp.tpPeerRecvIdx m.tp.tpSendCounter ciphertext tag) carry,
          .transportEncrypt sender m.wgState m.hs.hsTransportSend m.tp.tpSendCounter m.ticks]

/-- Any calls of `transport_send`, newest first and each with the machine it was made on. Between
them anything may happen that is not logged. -/
inductive SendRun (env : Env σ) (m₀ : Machine σ) : List (Sender × Machine σ) → Machine σ → Prop
  | start : SendRun env m₀ [] m₀
  | between {calls : List (Sender × Machine σ)} {m m' : Machine σ} (h : SendRun env m₀ calls m)
      (hlog : m'.trace = m.trace) : SendRun env m₀ calls m'
  | send {calls : List (Sender × Machine σ)} {m : Machine σ} (h : SendRun env m₀ calls m)
      (sender : Sender) : SendRun env m₀ ((sender, m) :: calls) (transportSend env sender m).1

theorem payload_fits (env : Env σ) {m : Machine σ} (h : ¬ env.build.wgMtu < m.tp.tpPayloadLen) :
    m.tp.tpPayloadLen + 32 ≤ udpRecvBufSize := by
  have hmtu := env.build.wgMtu_le
  omega

/-- One call logs what it may. -/
theorem transportSend_log (env : Env σ) (sender : Sender) (m : Machine σ) :
    ∃ log, CallLog env sender m log ∧
      (transportSend env sender m).1.trace = log ++ m.trace := by
  rw [transportSend]
  split
  · rename_i hmtu
    exact ⟨[], .refused (.inl hmtu), rfl⟩
  · rename_i hmtu
    have hfits := payload_fits env hmtu
    rw [callTransportEncrypt]
    obtain ⟨c', t', rekey, heq, -, hreason⟩ | ⟨ct, tag, c', rekey, heq, -, henc⟩ :=
      transportEncrypt_cases env.prims m.hs.hsTransportSend (payloadBytes m) m.hs.toCryptoMem m.tp
    · rw [heq]
      exact ⟨[], .refused (.inr (hreason.imp_left (rejectCounter_iff _).mp)), rfl⟩
    · rw [slice_encryptStage _ _ hfits] at henc
      have hpkt := tpPacketBytes_encryptedMem (payloadBytes m) hfits ct tag
      rw [heq]
      dsimp only
      generalize encryptedMem (payloadBytes m) m.tp ct tag = t' at *
      refine ⟨_, .sent (env.net.netUdpSend m.wgPeer (tpPacketBytes t') m.world).2 henc, ?_⟩
      · rw [sealedPacket, ← hpkt]
        rfl

/-- And so does a sequence. -/
theorem SendRun.log {env : Env σ} {m₀ m : Machine σ} {calls : List (Sender × Machine σ)}
    (h : SendRun env m₀ calls m) :
    ∃ logs, List.Forall₂ (fun call log => CallLog env call.1 call.2 log) calls logs ∧
      m.trace = logs.flatten ++ m₀.trace := by
  induction h with
  | start => exact ⟨[], .nil, rfl⟩
  | between _ hlog ih =>
      obtain ⟨logs, hcalls, htrace⟩ := ih
      exact ⟨logs, hcalls, hlog.trans htrace⟩
  | @send calls m _ sender ih =>
      obtain ⟨logs, hcalls, htrace⟩ := ih
      obtain ⟨log, hcall, hnew⟩ := transportSend_log env sender m
      refine ⟨log :: logs, .cons hcall hcalls, ?_⟩
      rw [hnew, htrace, List.flatten_cons, List.append_assoc]

/-- **Encryption fails closed.** A payload above the tunnel MTU changes nothing. `transport_encrypt`
refuses exactly for one of its two reasons, tells which, leaves no packet and keeps the counter. And
over any sequence of calls, every datagram is the packet that the call which sent it has just sealed. -/
theorem transportSend_complete (env : Env σ) :
    (∀ sender m, env.build.wgMtu < m.tp.tpPayloadLen → transportSend env sender m = (m, true)) ∧
    (∀ key payload c t,
      let r := transportEncrypt env.prims key payload c t
      (r.2.2.1 = true ↔ Refused env.prims key payload t) ∧
        (r.2.2.1 = true → r.2.1.tpPacketLen = 0 ∧ r.2.1.tpSendCounter = t.tpSendCounter ∧
          r.2.1.tpEncryptError = if 2 ^ 60 ≤ le t.tpSendCounter then 1 else 0)) ∧
    ∀ m₀ m calls, SendRun env m₀ calls m →
      ∃ logs, List.Forall₂ (fun call log => CallLog env call.1 call.2 log) calls logs ∧
        m.trace = logs.flatten ++ m₀.trace := by
  refine ⟨fun sender m h => ?_, fun key payload c t => transportEncrypt_refused _ key payload c t,
    fun m₀ m calls h => h.log⟩
  rw [transportSend, if_pos h]

/-! ## The round trip -/

/-- `aead_encrypt` accepts every transport payload. -/
def AeadAcceptsTransport (p : Primitives) : Prop :=
  ∀ (key : Bytes 32) (nonce : Bytes 12) {n : Nat} (data : Bytes n), n ≤ 1468 →
    (p.aeadEncrypt key nonce [] data).isSome

/-- What the receive path leaves in `t'` of a packet with this payload, from `t`: the payload behind the
header, and nothing behind the packet. -/
structure Delivered {n : Nat} (payload : Bytes n) (t t' : TpMem) : Prop where
  payloadLen : t'.tpPayloadLen = n
  payload : slice t'.tpPacket 16 n = payload
  frame : ∀ i, n + 32 ≤ i → byte t'.tpPacket i = byte t.tpPacket i

/-- The payload as a list. -/
theorem Delivered.toList {n : Nat} {payload : Bytes n} {t t' : TpMem} (h : Delivered payload t t') :
    (slice t'.tpPacket 16 t'.tpPayloadLen).toList = payload.toList := by
  rw [h.payloadLen, h.payload]

/-- The plaintext copy reads the payload and nothing behind it. -/
theorem transportEncrypt_congr (p : Primitives) (key : Bytes 32) {payload payload' : Bytes udpRecvBufSize}
    (c : CryptoMem) {t : TpMem}
    (h : slice payload' 0 t.tpPayloadLen = slice payload 0 t.tpPayloadLen) :
    transportEncrypt p key payload' c t = transportEncrypt p key payload c t := by
  have hstage : ∀ e, encryptStage payload' { t with tpEncryptError := e } =
      encryptStage payload { t with tpEncryptError := e } := by
    intro e
    rw [encryptStage, encryptStage, copy16_eq, copy16_eq, h]
  simp only [transportEncrypt, hstage]

/-- The receive copies read the packet and nothing behind it. -/
theorem transportDecrypt_congr (p : Primitives) (key : Bytes 32) {udp udp' : UdpRecv} (c : CryptoMem)
    (t : TpMem) (hlen : udp'.udpRecvLen = udp.udpRecvLen) (hlong : 32 ≤ udp.udpRecvLen)
    (h : slice udp'.udpRecvBuf 0 udp.udpRecvLen = slice udp.udpRecvBuf 0 udp.udpRecvLen) :
    transportDecrypt p key udp' c t = transportDecrypt p key udp c t := by
  have hrun : ∀ off n, off + n ≤ udp.udpRecvLen →
      slice udp'.udpRecvBuf off n = slice udp.udpRecvBuf off n := by
    intro off n hfit
    have h' := congrArg (fun b => slice b off n) h
    simp only [slice_slice _ _ hfit, Nat.zero_add] at h'
    exact h'
  have hbyte : byte udp'.udpRecvBuf 0 = byte udp.udpRecvBuf 0 := by
    have h' := congrArg (fun b => byte b 0) (hrun 0 1 (by omega))
    simpa using h'
  have hcounter : packetCounter udp' = packetCounter udp := hrun 8 8 (by omega)
  have hmod : (udp.udpRecvLen + 65536 - 32) % 65536 = udp.udpRecvLen - 32 := by
    have hmax := udp.udpRecvLen_le
    unfold udpRecvBufSize at hmax
    omega
  have hverify : ∀ t : TpMem, t.tpPayloadLen = udp.udpRecvLen - 32 →
      decryptVerify p key udp' c t = decryptVerify p key udp c t := by
    intro t ht
    have hstage : decryptStage key udp' c t = decryptStage key udp c t := by
      rw [decryptStage, decryptStage, copy16_eq, copy16_eq, hrun _ _ (by omega),
        hrun _ _ (by omega)]
    rw [decryptVerify, decryptVerify, hstage]
  rw [transportDecrypt, transportDecrypt]
  simp only [hbyte, hcounter, hlen, hmod]
  split
  · rfl
  · split
    · rfl
    · split
      · split
        · rfl
        · exact hverify _ rfl
      · rfl

/-- The window update leaves the packet alone. -/
theorem windowUpdate_packet (t : TpMem) :
    (windowUpdate t).tpPacket = t.tpPacket ∧ (windowUpdate t).tpPayloadLen = t.tpPayloadLen := by
  rw [windowUpdate]
  split <;> exact ⟨rfl, rfl⟩

/-- A sealed packet opens, in any state whose window admits its counter. -/
theorem transportDecrypt_sealed (hi : AeadInverts p) {key : Bytes 32} {n : Nat} (hn : n ≤ 1468)
    {payload ciphertext : Bytes n} {idx : Bytes 4} {counter : Bytes 8} {tag : Bytes 16}
    (henc : p.aeadEncrypt key (transportBuildNonce counter) [] payload = some (ciphertext, tag))
    (hctr : le counter < 2 ^ 60) {udp : UdpRecv} (hlen : udp.udpRecvLen = n + 32)
    (hpkt : (slice udp.udpRecvBuf 0 (n + 32)).toList = sealedPacket idx counter ciphertext tag)
    (c : CryptoMem) {t : TpMem} (hadm : admits c64Policy (window t) (le counter) = true) :
    (transportDecrypt p key udp c t).1 = true ∧
      Delivered payload t (transportDecrypt p key udp c t).2.2 := by
  have hsize : udpRecvBufSize = 1500 := rfl
  have hrun : ∀ {off m} (field : Bytes m) (before behind : List UInt8), off + m ≤ n + 32 →
      sealedPacket idx counter ciphertext tag = before ++ field.toList ++ behind →
      before.length = off → slice udp.udpRecvBuf off m = field := by
    intro off m field before behind hfit heq hoff
    have h := slice_of_toList before behind (hpkt.trans heq) hoff
    rwa [slice_slice _ _ hfit, Nat.zero_add] at h
  have htype : byte udp.udpRecvBuf 0 = 4 := by
    have h := getD_toList (slice udp.udpRecvBuf 0 (n + 32)) 0
    rw [hpkt, byte_slice, if_pos (by omega)] at h
    exact h.symm
  have hcounter : packetCounter udp = counter :=
    hrun counter ([4, 0, 0, 0] ++ idx.toList) (ciphertext.toList ++ tag.toList) (by omega) rfl
      (by simp)
  have hct : slice udp.udpRecvBuf 16 n = ciphertext :=
    hrun ciphertext ([4, 0, 0, 0] ++ idx.toList ++ counter.toList) tag.toList (by omega)
      (by simp [sealedPacket]) (by simp)
  have htag : slice udp.udpRecvBuf (16 + n) 16 = tag :=
    hrun tag ([4, 0, 0, 0] ++ idx.toList ++ counter.toList ++ ciphertext.toList) [] (by omega)
      (by simp [sealedPacket]) (by simp; omega)
  have hopen := hi _ _ _ _ _ _ henc
  have hsub : udp.udpRecvLen - 32 = n := by omega
  have hauth : authentic p key udp = true := by
    rw [authentic, hsub, hct, htag, hcounter, hopen, decide_eq_true (by omega)]
    rfl
  have hdec : decryptedPacket p key udp t.tpPacket = copyIn (copyIn t.tpPacket 16 ciphertext) 16 payload := by
    rw [decryptedPacket, hsub, hct, htag, hcounter, hopen]
  have hacc : accepts p key udp t = true := by
    rw [accepts, htype, hcounter, hadm, hauth, decide_eq_true hctr]
    rfl
  obtain ⟨-, lo, hi', c', heq, -⟩ | ⟨hno, -⟩ := transportDecrypt_cases p key udp c t
  · rw [heq]
    obtain ⟨hpacket, hpaylen⟩ := windowUpdate_packet (decryptedMem p key udp t lo hi')
    refine ⟨rfl, ?_, ?_, ?_⟩
    · exact hpaylen.trans hsub
    · rw [hpacket]
      show slice (decryptedPacket p key udp t.tpPacket) 16 n = payload
      rw [hdec, slice_copyIn_self _ _ (by omega)]
    · intro i hi
      rw [hpacket]
      show byte (decryptedPacket p key udp t.tpPacket) i = byte t.tpPacket i
      rw [hdec, byte_copyIn, if_neg (by omega), byte_copyIn, if_neg (by omega)]
  · rw [hacc] at hno
    cases hno

/-- The transport cells once `@type4` has copied the packet in. -/
def Machine.arrived (m : Machine σ) : TpMem :=
  { m.tp with
    tpPacket := copyIn m.tp.tpPacket 0 (slice m.udp.udpRecvBuf 0 m.udp.udpRecvLen)
    tpPacketLen := m.udp.udpRecvLen }

theorem callTransportDecrypt_eq (env : Env σ) (m : Machine σ) :
    (callTransportDecrypt env m).1 = (transportDecrypt env.prims m.hs.hsTransportRecv m.udp
        m.hs.toCryptoMem m.arrived).1 ∧
      (callTransportDecrypt env m).2.tp = (transportDecrypt env.prims m.hs.hsTransportRecv m.udp
        m.hs.toCryptoMem m.arrived).2.2 := by
  rw [callTransportDecrypt, copy16_eq]
  exact ⟨rfl, rfl⟩

/-- **What is encrypted is decrypted**, for every payload of a tunnel. The sender writes the packet and
nothing behind it; delivered to a receiver with the same key whose window admits the counter, by
itself or through `session_handle_packet`, those bytes leave it the payload. No copy reads beyond
the payload or the packet. -/
theorem transport_roundTrip (ha : AeadAcceptsTransport p) (hi : AeadInverts p) (key : Bytes 32)
    (payload : Bytes udpRecvBufSize) (c : CryptoMem) {t : TpMem} (hlen : t.tpPayloadLen ≤ 1468)
    (hctr : le t.tpSendCounter < 2 ^ 60) :
    let r := transportEncrypt p key payload c t
    let sent := slice payload 0 t.tpPayloadLen
    (r.2.2.1 = false ∧ r.2.1.tpPacketLen = t.tpPayloadLen + 32 ∧
      (∃ ciphertext tag,
        p.aeadEncrypt key (transportBuildNonce t.tpSendCounter) [] sent = some (ciphertext, tag) ∧
        tpPacketBytes r.2.1 = sealedPacket t.tpPeerRecvIdx t.tpSendCounter ciphertext tag) ∧
      (∀ i, t.tpPayloadLen + 32 ≤ i → byte r.2.1.tpPacket i = byte t.tpPacket i) ∧
      ∀ payload', slice payload' 0 t.tpPayloadLen = sent → transportEncrypt p key payload' c t = r) ∧
    ∀ udp : UdpRecv, udp.udpRecvLen = t.tpPayloadLen + 32 →
      (slice udp.udpRecvBuf 0 udp.udpRecvLen).toList = tpPacketBytes r.2.1 →
      (∀ c' t', admits c64Policy (window t') (le t.tpSendCounter) = true →
        let d := transportDecrypt p key udp c' t'
        d.1 = true ∧ Delivered sent t' d.2.2 ∧
          ∀ udp', udp'.udpRecvLen = udp.udpRecvLen →
            slice udp'.udpRecvBuf 0 udp.udpRecvLen = slice udp.udpRecvBuf 0 udp.udpRecvLen →
            transportDecrypt p key udp' c' t' = d) ∧
      ∀ (σ : Type) (env : Env σ) (m : Machine σ), env.prims = p → m.hs.hsTransportRecv = key →
        m.udp = udp → admits c64Policy (window m.tp) (le t.tpSendCounter) = true →
        (callTransportDecrypt env m).1 = true ∧
          Delivered sent m.tp (callTransportDecrypt env m).2.tp ∧
          ∀ udp', udp'.udpRecvLen = udp.udpRecvLen →
            slice udp'.udpRecvBuf 0 udp.udpRecvLen = slice udp.udpRecvBuf 0 udp.udpRecvLen →
            (callTransportDecrypt env { m with udp := udp' }).2.tp = (callTransportDecrypt env m).2.tp := by
  have hfits : t.tpPayloadLen + 32 ≤ udpRecvBufSize := by
    unfold udpRecvBufSize
    omega
  obtain ⟨_, _, _, heq, -, hreason⟩ | ⟨ct, tag, c', rekey, heq, -, henc⟩ :=
    transportEncrypt_cases p key payload c t
  · exfalso
    rcases hreason with hlim | hnone
    · exact Nat.not_le.mpr hctr ((rejectCounter_iff _).mp hlim)
    · have hsome := ha key (transportBuildNonce t.tpSendCounter)
        (slice (encryptStage payload t) 16 t.tpPayloadLen) hlen
      rw [hnone] at hsome
      cases hsome
  rw [slice_encryptStage _ _ hfits] at henc
  have hpkt : tpPacketBytes (encryptedMem payload t ct tag) =
      sealedPacket t.tpPeerRecvIdx t.tpSendCounter ct tag := tpPacketBytes_encryptedMem payload hfits ct tag
  intro r sent
  have hcarry : r.2.2.1 = false := congrArg (fun r => r.2.2.1) heq
  have hmem : r.2.1 = encryptedMem payload t ct tag := congrArg (fun r => r.2.1) heq
  rw [hcarry, hmem, hpkt]
  refine ⟨⟨rfl, ?_, ⟨ct, tag, henc, rfl⟩, ?_, fun payload' h => transportEncrypt_congr p key c h⟩, ?_⟩
  · show (t.tpPayloadLen + 32) % 65536 = _
    omega
  · intro i hi
    show byte (copyIn (copyIn (encryptStage payload t) 16 ct) (16 + t.tpPayloadLen) tag) i = _
    rw [byte_copyIn, if_neg (by omega), byte_copyIn, if_neg (by omega), encryptStage, copy16_eq,
      byte_copyIn, if_neg (by omega), byte_copyIn, if_neg (by omega), byte_copyIn, if_neg (by omega),
      byte_copyIn, if_neg (by omega)]
  intro udp hudp hbytes
  have hlong : 32 ≤ udp.udpRecvLen := by omega
  rw [hudp] at hbytes
  refine ⟨fun c' t' hadm => ?_, ?_⟩
  · obtain ⟨hok, hdelivered⟩ := transportDecrypt_sealed hi hlen henc hctr hudp hbytes c' hadm
    exact ⟨hok, hdelivered, fun udp' hl h => transportDecrypt_congr p key c' t' hl hlong h⟩
  · rintro σ env m rfl rfl rfl hadm
    have hcall := callTransportDecrypt_eq env m
    obtain ⟨haccepted, hdelivered⟩ := transportDecrypt_sealed hi hlen henc hctr hudp hbytes
      m.hs.toCryptoMem (t := m.arrived) hadm
    rw [hcall.1, hcall.2]
    refine ⟨haccepted, ⟨hdelivered.payloadLen, hdelivered.payload, fun i hi => ?_⟩, fun udp' hl h => ?_⟩
    · rw [hdelivered.frame i hi, Machine.arrived, byte_copyIn, if_neg (by omega)]
    · have harrived : ({ m with udp := udp' } : Machine σ).arrived = m.arrived := by
        show ({ m.tp with
          tpPacket := copyIn m.tp.tpPacket 0 (slice udp'.udpRecvBuf 0 udp'.udpRecvLen)
          tpPacketLen := udp'.udpRecvLen } : TpMem) = m.arrived
        rw [hl, h]
        rfl
      rw [(callTransportDecrypt_eq env _).2, harrived]
      exact congrArg (fun r => r.2.2) (transportDecrypt_congr env.prims _ _ _ hl hlong h)

/-- A payload of one page, from program start to program start. -/
theorem transport_roundTrip_page :
    let r := transportEncrypt rfcPrims (zero 32) (zero _) (.start 0)
      { TpMem.start with tpPayloadLen := 256 }
    r.2.2.1 = false ∧ r.2.1.tpPacketLen = 288 ∧
      ∀ udp : UdpRecv, udp.udpRecvLen = 288 → udp.udpRecvBuf = r.2.1.tpPacket →
        (transportDecrypt rfcPrims (zero 32) udp (.start 0) .start).1 = true := by
  have hpage := transport_roundTrip (p := rfcPrims) (fun _ _ _ _ _ => rfl) rfcPrims_aeadInverts (zero 32)
    (zero _) (.start 0) (t := { TpMem.start with tpPayloadLen := 256 }) (by decide)
    (by simp [TpMem.start])
  refine ⟨hpage.1.1, hpage.1.2.1, fun udp hlen hbuf => ?_⟩
  refine (hpage.2 udp hlen ?_).1 (.start 0) .start ?_ |>.1
  · rw [tpPacketBytes, hpage.1.2.1, hlen, hbuf]
  · show admits c64Policy (window TpMem.start) (le (zero 8)) = true
    rw [le_zero]
    decide +kernel

end C64WireGuard
