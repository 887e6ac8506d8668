import C64WireGuard.Outstanding
import C64WireGuard.Scripted

/-!
# Cookie replies that the peer built

`cookieReply` is the Type 3 packet WireGuard answers an initiation with. In every run, a reply to the
outstanding initiation is accepted and the next Type 1 packet carries its cookie, as long as
`cfg_peer_pub` still is the key the initiation was made for (`run_cookie`). `cookie_handle_type3` reads
that cell and not `hs_resp_pub`, so a configuration loaded in between breaks it
(`run_cookie_reconfigured`).
-/

namespace C64WireGuard

open Bytes

/-! ## The reply -/

/-- What the holder of `pub` answers a Type 1 packet with. -/
def cookieReply (pub : Bytes 32) (pkt : List UInt8) (nonce : Bytes 24) (cookie : Bytes 16) :
    List UInt8 :=
  let box := ChaChaPoly.xaeadSeal (cookieKey pub) nonce ((pkt.drop 116).take 16) cookie
  [3, 0, 0, 0] ++ (pkt.drop 4).take 4 ++ nonce.toList ++ box.1.toList ++ box.2.toList

/-- The first 64 bytes of `udp_recv_buf` are the reply. -/
def Holds (udp : UdpRecv) (reply : List UInt8) : Prop := (slice udp.udpRecvBuf 0 64).toList = reply

/-- The fields of a reply, where the program reads them. -/
structure ReplyFields (pub : Bytes 32) (pkt : Bytes 148) (nonce : Bytes 24) (cookie : Bytes 16)
    (udp : UdpRecv) : Prop where
  type : byte udp.udpRecvBuf 0 = 3
  index : slice udp.udpRecvBuf 4 4 = slice pkt 4 4
  data : slice udp.udpRecvBuf 32 16 =
    (ChaChaPoly.xaeadSeal (cookieKey pub) nonce (slice pkt 116 16).toList cookie).1
  tag : slice udp.udpRecvBuf 48 16 =
    (ChaChaPoly.xaeadSeal (cookieKey pub) nonce (slice pkt 116 16).toList cookie).2
  nonce : replyNonce udp = nonce

theorem replyFields {pub : Bytes 32} {pkt : Bytes 148} {nonce : Bytes 24} {cookie : Bytes 16}
    {udp : UdpRecv} (h : Holds udp (cookieReply pub pkt.toList nonce cookie)) :
    ReplyFields pub pkt nonce cookie udp := by
  rw [Holds, cookieReply, ← toList_slice pkt (show 116 + 16 ≤ 148 by decide),
    ← toList_slice pkt (show 4 + 4 ≤ 148 by decide)] at h
  generalize hbox : ChaChaPoly.xaeadSeal (cookieKey pub) nonce (slice pkt 116 16).toList cookie =
    box at *
  have hrun : ∀ {k off : Nat}, off + k ≤ 64 →
      slice (slice udp.udpRecvBuf 0 64) off k = slice udp.udpRecvBuf off k := by
    intro k off hoff
    rw [slice_slice _ _ hoff, Nat.zero_add]
  have hhead : slice (slice udp.udpRecvBuf 0 64) 0 4 = #v[3, 0, 0, 0] := by
    have htype : (#v[3, 0, 0, 0] : Bytes 4).toList = [3, 0, 0, 0] := rfl
    refine slice_of_toList [] ((slice pkt 4 4).toList ++ nonce.toList ++ box.1.toList ++ box.2.toList)
      ?_ rfl
    rw [h, htype]
    simp only [List.append_assoc, List.nil_append]
  refine ⟨?_, ?_, ?_, ?_, ?_⟩
  · have hbyte := congrArg (byte · 0) hhead
    rw [hrun (by decide)] at hbyte
    rw [byte_slice, if_pos (by decide)] at hbyte
    exact hbyte
  · rw [← hrun (by decide)]
    exact slice_of_toList [3, 0, 0, 0] (nonce.toList ++ box.1.toList ++ box.2.toList)
      (by rw [h]; simp only [List.append_assoc]) rfl
  · rw [← hrun (by decide), hbox]
    exact slice_of_toList ([3, 0, 0, 0] ++ (slice pkt 4 4).toList ++ nonce.toList)
      box.2.toList h (by simp)
  · rw [← hrun (by decide), hbox]
    exact slice_of_toList _ [] (by rw [h, List.append_nil]) (by simp)
  · rw [replyNonce, ← hrun (by decide)]
    exact slice_of_toList ([3, 0, 0, 0] ++ (slice pkt 4 4).toList)
      (box.1.toList ++ box.2.toList) (by rw [h]; simp only [List.append_assoc]) (by simp)

/-! ## HChaCha20 -/

variable {p : Primitives}

theorem hcDoubleRound_spec (hrfc : Rfc8439 p) {ws : List UInt32} (h : ws.length = 16) :
    hcDoubleRound p (ChaChaPoly.ofWords ws) =
      ChaChaPoly.ofWords (ChaChaPoly.quarterIndices.foldl ChaChaPoly.quarterRound ws) := by
  have hquarter : ∀ (i : Nat) {ws : List UInt32}, i < 8 → ws.length = 16 →
      p.chacha20QuarterRound (4 * i) (ChaChaPoly.ofWords ws) =
        ChaChaPoly.ofWords (ChaChaPoly.quarterRound ws
          (ChaChaPoly.quarterIndices.getD i (0, 0, 0, 0))) := by
    intro i ws hi hws
    rw [hrfc.chacha20QuarterRound i _ hi, ChaChaPoly.toWords_ofWords hws]
  have hfold : ∀ (is : List Nat) {ws : List UInt32}, (∀ i ∈ is, i < 8) → ws.length = 16 →
      (is.map (4 * ·)).foldl (fun w qrIdx => p.chacha20QuarterRound qrIdx w)
          (ChaChaPoly.ofWords ws) =
        ChaChaPoly.ofWords ((is.map fun i => ChaChaPoly.quarterIndices.getD i (0, 0, 0, 0)).foldl
          ChaChaPoly.quarterRound ws) := by
    intro is
    induction is with
    | nil => intros; rfl
    | cons i is ih =>
        intro ws his hws
        rw [List.map_cons, List.map_cons, List.foldl_cons, List.foldl_cons,
          hquarter i (his i List.mem_cons_self) hws,
          ih (fun j hj => his j (List.mem_cons_of_mem _ hj))
            ((ChaChaPoly.length_quarterRound _ _).trans hws)]
  exact hfold [0, 1, 2, 3, 4, 5, 6, 7] (by decide) h

theorem hcDoubleRounds_spec (hrfc : Rfc8439 p) (n : Nat) {ws : List UInt32} (h : ws.length = 16) :
    (hcDoubleRound p)^[n] (ChaChaPoly.ofWords ws) =
      ChaChaPoly.ofWords ((fun ws => ChaChaPoly.quarterIndices.foldl ChaChaPoly.quarterRound ws)^[n]
        ws) := by
  induction n generalizing ws with
  | zero => rfl
  | succ n ih =>
      rw [Function.iterate_succ_apply, Function.iterate_succ_apply, hcDoubleRound_spec hrfc h,
        ih ((ChaChaPoly.length_foldl_quarterRound _ _).trans h)]

/-- `hchacha20` over the library's quarter rounds is `HChaCha20`. -/
theorem hchachaKey_spec (hrfc : Rfc8439 p) (key : Bytes 32) (nonce : Bytes 16) :
    hchachaKey p key nonce = ChaChaPoly.hchacha20 key nonce := by
  have hinit : p.chacha20Init key (slice nonce 0 4) (slice nonce 4 12) = ChaChaPoly.ofWords
      (ChaChaPoly.toWords (ChaChaPoly.initState key (slice nonce 0 4) (slice nonce 4 12))) := by
    rw [hrfc.chacha20Init, ChaChaPoly.ofWords_toWords]
  have hrounds : ∀ ws, ChaChaPoly.rounds ws =
      (fun ws => ChaChaPoly.quarterIndices.foldl ChaChaPoly.quarterRound ws)^[10] ws := by
    intro ws
    exact (List.foldl_const _ ws (List.range 10)).trans (by rw [List.length_range])
  have hcover : ∀ (work : Bytes 64) (a b : Bytes 32),
      copyIn (copyIn a 0 (slice work 0 16)) 16 (slice work 48 16) =
        copyIn (copyIn b 0 (slice work 0 16)) 16 (slice work 48 16) := by
    intro work a b
    apply ext_byte
    intro i hi
    simp only [byte_copyIn]
    split
    · rfl
    · rw [if_pos (by omega), if_pos (by omega)]
  simp only [hchachaKey, ChaChaPoly.hchacha20]
  rw [hinit, hcDoubleRounds_spec hrfc 10 (ChaChaPoly.length_toWords _), ← hrounds]
  exact hcover _ _ _

/-! ## Acceptance -/

/-- A reply opens for whoever it was sealed for, and to the cookie in it. -/
theorem openCookie_cookieReply (hrfc : Rfc8439 p) {pub : Bytes 32} {pkt : Bytes 148}
    {nonce : Bytes 24} {cookie : Bytes 16} {udp : UdpRecv}
    (h : ReplyFields pub pkt nonce cookie udp) :
    openCookie p pub udp (slice pkt 116 16) = (true, cookie) := by
  rw [openCookie, hchachaKey_spec hrfc, h.nonce, h.data, h.tag, ChaChaPoly.xaeadSeal]
  generalize ChaChaPoly.hchacha20 (cookieKey pub) (slice nonce 0 16) = key
  generalize copyIn (zero 12) 4 (slice nonce 16 8) = iv
  obtain ⟨hok, hdata⟩ := hrfc.aeadDecrypt key iv (slice pkt 116 16).toList
    (ChaChaPoly.aeadSeal key iv (slice pkt 116 16).toList cookie).1
    (ChaChaPoly.aeadSeal key iv (slice pkt 116 16).toList cookie).2
  rw [ChaChaPoly.aeadOpen_aeadSeal] at hok hdata
  exact Prod.ext hok (hdata hok)

variable {σ : Type}

/-- A reply to the outstanding initiation, opened as one from the peer it was sealed by: it is
accepted, and the initiation that follows carries the cookie. -/
theorem Outstanding.cookie {env : Env σ} (hrfc : Rfc8439 env.prims) {m : Machine σ}
    (ho : Outstanding env m) (hst : m.wgState = .hsSent) {nonce : Bytes 24} {cookie : Bytes 16}
    (h : ReplyFields m.cfg.cfgPeerPub m.hs.hsPacket nonce cookie m.udp) :
    (cookieHandleType3 env.prims m.cfg.cfgPeerPub m.udp m.hs).1 = true ∧
      ∃ next, initiations (sessionHandlePacket env m).trace = next :: initiations m.trace ∧
        next.drop 132 = (Blake2s.digest 16 cookie.toList (next.take 132)).toList := by
  obtain ⟨cm, -, heq⟩ := cookieHandleType3_spec env.prims m.cfg.cfgPeerPub m.udp m.hs
  rw [openCookie_cookieReply hrfc h, if_pos ⟨h.index.trans ho.index, ho.mac1Valid⟩] at heq
  dsimp only at heq
  rw [Bool.or_true] at heq
  refine ⟨by rw [heq], ?_⟩
  have hcall := sessionHandlePacket_type3 env hst h.type
  have heq' : cookieHandleType3 env.prims m.cfg.cfgPeerPub { m.udp with udpRecvReady := false }
      m.hs = cookieHandleType3 env.prims m.cfg.cfgPeerPub m.udp m.hs := rfl
  simp only [callCookieHandleType3, heq', heq, if_true] at hcall
  rw [hcall]
  generalize hm' : Machine.printString _ Str.cookieRecvMsg = m'
  have hval : m'.hs.cookieValid = true := by rw [← hm']; rfl
  have hbuf : slice m'.hs.cookieBuf 0 16 = cookie := by
    rw [← hm']
    exact slice_copyIn_self _ _ (by decide)
  have hlog : initiations m'.trace = initiations m.trace := by
    have hsilent : ∀ e ∈ [Event.printString .cookieRecvMsg, .cookieHandleType3 m.cfg.cfgPeerPub
        { m.udp with udpRecvReady := false } true], e.Silent := by
      simp [Event.Silent, Event.initiation]
    rw [← hm']
    exact initiations_append hsilent _
  refine ⟨_, by rw [initiations_sessionInitiate, hlog], ?_⟩
  have hmac := sessionInitiate_mac2 env m'
  rw [hval, mac2, if_pos rfl, hbuf] at hmac
  rw [← hmac, toList_slice _ (by decide)]
  exact (List.take_of_length_le (by simp)).symm

/-- **Cookie replies from the peer are accepted**, as long as `cfg_peer_pub` still is the key the
initiation was made for. In every run, at any moment in `HS_SENT`: the initiation waited for is the
last Type 1 packet sent, made by `session_initiate` for the key in `hs_resp_pub`; a reply to it that
the holder of that key built is accepted; and the one Type 1 packet that goes out then carries a MAC2
keyed with the cookie. -/
theorem run_cookie (env : Env σ) (hrfc : Rfc8439 env.prims) (b2sKeyLen : UInt8) (world : σ)
    (ticks n : Nat) :
    let m := run env n (Machine.start b2sKeyLen world ticks)
    m.wgState = .hsSent → m.cfg.cfgPeerPub = m.hs.hsRespPub →
    ∃ pkt, (initiations m.trace).head? = some pkt ∧
      (∃ m₀ : Machine σ, m.hs.hsRespPub = m₀.cfg.cfgPeerPub ∧
        pkt = (hsCreateInitiation env.prims (sessionPrepare env m₀).hs).hsPacket.toList) ∧
      ∀ (nonce : Bytes 24) (cookie : Bytes 16) (udp : UdpRecv) (world' : σ) (ticks' : Nat),
        Holds udp (cookieReply m.hs.hsRespPub pkt nonce cookie) →
        (cookieHandleType3 env.prims m.cfg.cfgPeerPub udp m.hs).1 = true ∧
          ∃ next,
            initiations (sessionHandlePacket env
                { m with udp := udp, world := world', ticks := ticks' }).trace =
              next :: initiations m.trace ∧
            next.drop 132 = (Blake2s.digest 16 cookie.toList (next.take 132)).toList := by
  intro m hst hpub
  have hw : Waits env m := run_waits env b2sKeyLen world ticks n
  have ho := hw.sent hst
  generalize m = m at *
  obtain ⟨m₀, hkey, horigin⟩ := ho.origin
  refine ⟨m.hs.hsPacket.toList, ho.packet, ⟨m₀, hkey, congrArg _ horigin⟩, ?_⟩
  intro nonce cookie udp world' ticks' hudp
  have hfields := replyFields hudp
  rw [← hpub] at hfields
  exact Outstanding.cookie hrfc (m := { m with udp := udp, world := world', ticks := ticks' })
    ⟨ho.unkeyed, ho.mac1Valid, ho.packet, ho.index, ho.origin⟩ hst hfields

theorem run_cookie_handshake :
    let m := run scripted 1 (scriptedStart [0x48])
    m.wgState = .hsSent ∧ m.cfg.cfgPeerPub = m.hs.hsRespPub ∧
      ∃ pkt, (initiations m.trace).head? = some pkt := by
  have hst : (run scripted 1 (scriptedStart [0x48])).wgState = .hsSent := by decide +kernel
  have hpub : (run scripted 1 (scriptedStart [0x48])).cfg.cfgPeerPub =
      (run scripted 1 (scriptedStart [0x48])).hs.hsRespPub := by decide +kernel
  obtain ⟨pkt, hpkt, -⟩ := run_cookie scripted rfcPrims_rfc8439 0 _ 0 1 hst hpub
  exact ⟨hst, hpub, pkt, hpkt⟩

/-! ## A configuration loaded in between -/

/-- A `WG.CFG` whose peer key is all `$11`. -/
def otherConfig : List UInt8 :=
  let keyLine (digit : UInt8) := List.replicate 64 digit ++ [cr]
  keyLine 0x30 ++ keyLine 0x30 ++ keyLine 0x31 ++
    -- `10.0.0.1`, `51820`, `10.0.0.2` and `10.0.0.3`
    [0x31, 0x30, 0x2e, 0x30, 0x2e, 0x30, 0x2e, 0x31, cr] ++ [0x35, 0x31, 0x38, 0x32, 0x30, cr] ++
    [0x31, 0x30, 0x2e, 0x30, 0x2e, 0x30, 0x2e, 0x32, cr] ++
    [0x31, 0x30, 0x2e, 0x30, 0x2e, 0x30, 0x2e, 0x33, cr]

/-- The scripted world with that file on its disk. -/
def reconfiguring : Env Script :=
  { scripted with host := { scriptedHost with readConfig := fun w => (w, some otherConfig) } }

/-- After the keys `H` and `L`. -/
def reconfigured : Machine Script := run reconfiguring 2 (scriptedStart [0x48, 0x4c])

theorem reconfigured_facts :
    reconfigured.wgState = .hsSent ∧ reconfigured.hs.hsRespPub = zero 32 ∧
      reconfigured.cfg.cfgPeerPub = tabulate 32 fun _ => 0x11 := by
  decide +kernel

/-- A datagram of 64 bytes. -/
def datagram (reply : List UInt8) : UdpRecv where
  udpRecvBuf := copyIn (zero _) 0 (ofList 64 reply)
  udpRecvLen := 64
  udpRecvLen_le := by decide
  udpRecvSrc := .start
  udpRecvReady := true

theorem holds_datagram {reply : List UInt8} (h : reply.length = 64) :
    Holds (datagram reply) reply := by
  rw [Holds, datagram, slice_copyIn_self _ _ (by decide), toList_ofList h]

/-- The one-time key of a reply under a nonce of zeros. -/
def oneTimeKey (pub : Bytes 32) : Bytes 32 :=
  slice (ChaChaPoly.block (ChaChaPoly.hchacha20 (cookieKey pub) (slice (zero 24) 0 16)) 0
    (copyIn (zero 12) 4 (slice (zero 24) 16 8))) 0 32

/-- A reply with a chosen ciphertext is accepted for another key only if the tags agree. -/
theorem accepted_tag {pub pub' : Bytes 32} {hs : HsMem}
    (hall : ∀ (nonce : Bytes 24) (cookie : Bytes 16) (udp : UdpRecv),
      Holds udp (cookieReply pub hs.hsPacket.toList nonce cookie) →
      (cookieHandleType3 rfcPrims pub' udp hs).1 = true) (c : Bytes 16) :
    let iv := copyIn (zero 12) 4 (slice (zero 24) 16 8)
    let aad := (slice hs.hsPacket 116 16).toList
    ChaChaPoly.tag (ChaChaPoly.hchacha20 (cookieKey pub) (slice (zero 24) 0 16)) iv aad c =
      ChaChaPoly.tag (ChaChaPoly.hchacha20 (cookieKey pub') (slice (zero 24) 0 16)) iv aad c := by
  intro iv aad
  set key := ChaChaPoly.hchacha20 (cookieKey pub) (slice (zero 24) 0 16) with hkey
  -- the cookie that encrypts to `c`
  set cookie := ChaChaPoly.xorStream key iv c with hcookie
  have hbox : ChaChaPoly.xaeadSeal (cookieKey pub) (zero 24) aad cookie =
      (c, ChaChaPoly.tag key iv aad c) := by
    rw [ChaChaPoly.xaeadSeal, ← hkey, ChaChaPoly.aeadSeal, hcookie, ChaChaPoly.xorStream_xorStream]
  set reply := cookieReply pub hs.hsPacket.toList (zero 24) cookie with hreply
  have hlen : reply.length = 64 := by
    rw [hreply, cookieReply]
    simp
  have hholds := holds_datagram hlen
  have hok := hall (zero 24) cookie (datagram reply) hholds
  have hfields := replyFields hholds
  obtain ⟨cm, -, heq⟩ := cookieHandleType3_spec rfcPrims pub' (datagram reply) hs
  rw [heq] at hok
  split at hok
  · have hopen : (openCookie rfcPrims pub' (datagram reply) (slice hs.hsPacket 116 16)).1 = true :=
      hok
    rw [openCookie, hchachaKey_spec rfcPrims_rfc8439, hfields.nonce, hfields.data, hfields.tag,
      hbox] at hopen
    exact (ChaChaPoly.aeadOpen_tag _ _ _ _ _).mp hopen
  · cases hok

/-- The two keys of the script multiply differently. -/
theorem oneTimeKey_squares :
    let r := ChaChaPoly.multiplier (oneTimeKey (zero 32))
    let r' := ChaChaPoly.multiplier (oneTimeKey (tabulate 32 fun _ => 0x11))
    r * r % (2 ^ 130 - 5) = 39580218754132647762574855691367712831 ∧
      r' * r' % (2 ^ 130 - 5) = 228362709988591781539843466713545285843 := by
  decide +kernel

/-- A configuration loaded while a response is waited for: of the replies the peer of the initiation
builds, not all are accepted. Tags that agree for two ciphertexts that differ by one would make the
squares of the two multipliers agree. -/
theorem run_cookie_reconfigured :
    let m := run reconfiguring 2 (scriptedStart [0x48, 0x4c])
    m.wgState = .hsSent ∧ ∃ pkt, (initiations m.trace).head? = some pkt ∧
      ¬ ∀ (nonce : Bytes 24) (cookie : Bytes 16) (udp : UdpRecv),
        Holds udp (cookieReply m.hs.hsRespPub pkt nonce cookie) →
        (cookieHandleType3 reconfiguring.prims m.cfg.cfgPeerPub udp m.hs).1 = true := by
  obtain ⟨hst, hpub, hcfg⟩ := reconfigured_facts
  have hw : Waits reconfiguring reconfigured := run_waits reconfiguring 0 _ 0 2
  rw [show run reconfiguring 2 (scriptedStart [0x48, 0x4c]) = reconfigured from rfl]
  generalize reconfigured = m at *
  refine ⟨hst, m.hs.hsPacket.toList, (hw.sent hst).packet, fun hall => ?_⟩
  rw [hpub, hcfg] at hall
  obtain ⟨hsq, hsq'⟩ := oneTimeKey_squares
  have hzero := accepted_tag hall (zero 16)
  have hone := accepted_tag hall (put (zero 16) 0 1)
  have haad : (slice m.hs.hsPacket 116 16).toList.length = 16 := by simp
  have hle : le (put (zero 16) 0 1 : Bytes 16) = le (zero 16 : Bytes 16) + 1 := by decide +kernel
  obtain ⟨a, b, ha, hb, hmod⟩ := ChaChaPoly.tags_agree haad hle hzero hone
  rw [← oneTimeKey, ← oneTimeKey, hsq, hsq'] at hmod
  rcases ha with rfl | rfl <;> rcases hb with rfl | rfl <;> exact absurd hmod (by decide)

end C64WireGuard
