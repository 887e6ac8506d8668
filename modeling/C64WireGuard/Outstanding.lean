import C64WireGuard.Conformance
import C64WireGuard.CookieReply
import C64WireGuard.Initiations

/-!
# The outstanding initiation

Between two calls of `session_initiate` the program leaves the initiation it sent alone. `Spares m m'`
says this of a routine: the cells of the initiation are as they were, the hash convention is kept,
`HS_SENT` is not entered, and no Type 1 packet was handed to the adapter. Every routine but
`session_initiate` has it, so an iteration of the main loop is a few such steps with calls of
`session_initiate` between them, and `run_outstanding` follows: while the program waits for a
response, `hs_packet` is the last Type 1 packet it sent.
-/

namespace C64WireGuard

open Bytes

variable {σ : Type}

/-! ## Type 1 packets in the log -/

/-- The Type 1 packet that a call hands to the adapter. -/
def Event.initiation : Event → Option (List UInt8)
  | .netUdpSend _ pkt _ => if pkt.head? = some 1 then some pkt else none
  | _ => none

/-- The Type 1 packets handed to the adapter, newest first. -/
def initiations (log : List Event) : List (List UInt8) := log.filterMap Event.initiation

/-- A call that hands no Type 1 packet to the adapter. -/
def Event.Silent (e : Event) : Prop := e.initiation = none

theorem initiations_append {new : List Event} (h : ∀ e ∈ new, e.Silent) (log : List Event) :
    initiations (new ++ log) = initiations log := by
  have hnone : new.filterMap Event.initiation = [] := List.filterMap_eq_nil_iff.mpr h
  rw [initiations, List.filterMap_append, hnone, List.nil_append, initiations]

/-! ## Routines that leave the initiation alone -/

/-- The cells that belong to the initiation: the packet, its sender index and peer, and the two
flags of the cookie exchange. -/
def HsMem.outstanding (hs : HsMem) : Bytes 148 × Bytes 4 × Bytes 32 × Bool × Bool :=
  (hs.hsPacket, hs.hsSenderIdx, hs.hsRespPub, hs.hsMac1Valid, hs.cookieValid)

/-- From `m` to `m'` the outstanding initiation was left alone. -/
structure Spares (m m' : Machine σ) : Prop where
  cells : m'.hs.outstanding = m.hs.outstanding
  unkeyed : Unkeyed m.hs.b2s → Unkeyed m'.hs.b2s
  state : m'.wgState = .hsSent → m.wgState = .hsSent
  log : ∃ new, m'.trace = new ++ m.trace ∧ ∀ e ∈ new, e.Silent

namespace Spares

variable {m m' m'' : Machine σ}

theorem refl (m : Machine σ) : Spares m m := ⟨rfl, id, id, [], rfl, by simp⟩

theorem trans (h : Spares m m') (h' : Spares m' m'') : Spares m m'' := by
  obtain ⟨new, hnew, hall⟩ := h.log
  obtain ⟨newer, hnewer, hall'⟩ := h'.log
  refine ⟨h'.cells.trans h.cells, h'.unkeyed ∘ h.unkeyed, h.state ∘ h'.state, newer ++ new, ?_, ?_⟩
  · rw [hnewer, hnew, List.append_assoc]
  · intro e he
    rcases List.mem_append.mp he with h | h
    · exact hall' e h
    · exact hall e h

/-- Writes elsewhere. -/
theorem elsewhere (h : Spares m m') {m'' : Machine σ} (hhs : m''.hs = m'.hs)
    (hst : m''.wgState = m'.wgState) (htrace : m''.trace = m'.trace) : Spares m m'' := by
  refine h.trans ⟨by rw [hhs], by rw [hhs]; exact id, by rw [hst]; exact id, [], ?_, by simp⟩
  rw [htrace]
  rfl

/-- Writes to the crypto scratch, the hash cells excepted. -/
theorem scratch (h : Spares m m') {m'' : Machine σ} (hcells : m''.hs.outstanding = m'.hs.outstanding)
    (hb : m''.hs.b2s = m'.hs.b2s) (hst : m''.wgState = m'.wgState)
    (htrace : m''.trace = m'.trace) : Spares m m'' := by
  refine h.trans ⟨hcells, by rw [hb]; exact id, by rw [hst]; exact id, [], ?_, by simp⟩
  rw [htrace]
  rfl

theorem log_event (h : Spares m m') {e : Event} (he : e.Silent) : Spares m (m'.log e) :=
  h.trans ⟨rfl, id, id, [e], rfl, by simpa using he⟩

theorem printString (h : Spares m m') (s : Str) : Spares m (m'.printString s) :=
  h.log_event rfl

theorem chroutAll (h : Spares m m') (bs : List UInt8) : Spares m (m'.chroutAll bs) := by
  refine h.trans ⟨rfl, id, id, _, rfl, ?_⟩
  intro e he
  obtain ⟨b, -, rfl⟩ := List.mem_map.mp (List.mem_reverse.mp he)
  rfl

theorem elapse (h : Spares m m') (env : Env σ) : Spares m (m'.elapse env) :=
  h.elsewhere rfl rfl rfl

theorem netUdpClose (h : Spares m m') (env : Env σ) : Spares m (m'.netUdpClose env) := by
  have hworld : Spares m { m' with world := env.net.netUdpClose m'.world } := h.elsewhere rfl rfl rfl
  exact hworld.log_event rfl

/-- Leaving `HS_SENT`. -/
theorem setState (h : Spares m m') {s : WgState} (hs : s ≠ .hsSent) : Spares m (m'.setState s) := by
  refine h.trans ⟨rfl, id, fun hc => absurd hc hs, [.setState s], rfl, ?_⟩
  intro e he
  rw [List.mem_singleton] at he
  subst he
  rfl

theorem sessionReset (h : Spares m m') (env : Env σ) : Spares m (sessionReset env m') := by
  rw [C64WireGuard.sessionReset]
  apply netUdpClose
  exact (h.setState (s := .idle) (by decide)).elsewhere rfl rfl rfl

theorem timerSessionStart (h : Spares m m') (env : Env σ) : Spares m (timerSessionStart env m') := by
  have hlog : Spares m ((m'.elapse env).log (.timerSessionStart (m'.elapse env).ticks)) :=
    (h.elapse env).log_event rfl
  exact hlog.elsewhere rfl rfl rfl

theorem timerMarkSend (h : Spares m m') (env : Env σ) : Spares m (timerMarkSend env m') :=
  (h.elapse env).elsewhere rfl rfl rfl

/-! ### Transport -/

theorem b2s_transportEncrypt (p : Primitives) (key : Bytes 32) (payload : Bytes udpRecvBufSize)
    (c : CryptoMem) (t : TpMem) : (transportEncrypt p key payload c t).1.b2s = c.b2s := by
  rw [transportEncrypt]
  dsimp only
  split
  · rfl
  · split <;> rfl

theorem transportSend (h : Spares m m') (env : Env σ) (sender : Sender) :
    Spares m (transportSend env sender m').1 := by
  rw [C64WireGuard.transportSend]
  split
  · exact h
  · rename_i hmtu
    have hb := b2s_transportEncrypt env.prims m'.hs.hsTransportSend (payloadBytes m')
      m'.hs.toCryptoMem m'.tp
    rw [callTransportEncrypt]
    obtain ⟨c', t', rekey, heq, -⟩ | ⟨ct, tag, c', rekey, heq, -⟩ := transportEncrypt_cases
      env.prims m'.hs.hsTransportSend (payloadBytes m') m'.hs.toCryptoMem m'.tp
    · rw [heq] at hb ⊢
      exact h.scratch rfl hb rfl rfl
    · rw [heq] at hb ⊢
      have hcells : Spares m { m' with
          hs := { m'.hs with toCryptoMem := c' }
          tp := encryptedMem (payloadBytes m') m'.tp ct tag
          timer := { m'.timer with rekeyPending := m'.timer.rekeyPending || rekey } } :=
        h.scratch rfl hb rfl rfl
      have hbuilt := hcells.log_event (e := .transportEncrypt sender m'.wgState
        m'.hs.hsTransportSend m'.tp.tpSendCounter m'.ticks) rfl
      refine hbuilt.trans ⟨rfl, id, id, [_], rfl, ?_⟩
      intro e he
      rw [List.mem_singleton] at he
      subst he
      refine if_neg fun hone => ?_
      exact absurd ((head?_tpPacketBytes (payload_lt env hmtu) ct tag).symm.trans hone) (by decide)

theorem routePayload (h : Spares m m') (env : Env σ) : Spares m (routePayload env m') := by
  have hshow : ∀ {m' : Machine σ}, Spares m m' → Spares m (displayPayload m') := by
    intro m' h'
    exact (h'.printString _).chroutAll _
  rw [C64WireGuard.routePayload, handleIcmp, handleUdp]
  split_ifs
  · exact h.printString _
  · exact hshow h
  · have hip : Spares m { m' with ip := (udpTunnelParse env.build m'.tp m'.ip).2 } :=
      h.elsewhere rfl rfl rfl
    exact (hip.printString _).chroutAll _
  · exact hshow (h.elsewhere rfl rfl rfl)
  · exact hshow h

theorem endpointUpdate (h : Spares m m') (env : Env σ) : Spares m (endpointUpdate env m') := by
  rw [C64WireGuard.endpointUpdate]
  split
  · exact h
  · refine Spares.netUdpClose ?_ env
    exact h.elsewhere rfl rfl rfl

theorem handleType4 (h : Spares m m') (env : Env σ) : Spares m (handleType4 env m') := by
  have hcall : Spares m (callTransportDecrypt env m').2 := by
    rw [callTransportDecrypt]
    obtain ⟨-, _, _, c', heq, hb⟩ | ⟨-, c', _, heq, hb, -⟩ :=
      transportDecrypt_cases env.prims m'.hs.hsTransportRecv m'.udp m'.hs.toCryptoMem
        { m'.tp with
          tpPacket := copy16 m'.tp.tpPacket 0 m'.udp.udpRecvBuf 0 m'.udp.udpRecvLen
          tpPacketLen := m'.udp.udpRecvLen }
    all_goals
      rw [heq]
      refine Spares.log_event ?_ rfl
      exact h.scratch rfl hb rfl rfl
  rw [C64WireGuard.handleType4]
  split
  · generalize callTransportDecrypt env m' = r at *
    dsimp only
    split
    · exact (hcall.endpointUpdate env).routePayload env
    · exact hcall.printString _
  · exact h

/-! ### Responses -/

/-- `hs_process_response` does not touch the initiation. -/
theorem outstanding_hsProcessResponse (p : Primitives) (hs : HsMem) :
    (hsProcessResponse p hs).2.outstanding = hs.outstanding ∧
      Unkeyed (hsProcessResponse p hs).2.b2s := by
  obtain ⟨cm, dh, s, hu, ⟨-, heq⟩ | ⟨-, heq⟩⟩ := hsProcessResponse_spec p hs
  · rw [heq]
    exact ⟨rfl, hu⟩
  · rw [heq]
    exact ⟨rfl, hu⟩

theorem handleType2 (h : Spares m m') (env : Env σ) : Spares m (handleType2 env m') := by
  obtain ⟨hcells, hu⟩ := outstanding_hsProcessResponse env.prims
    { m'.hs with hsRespPacket := slice m'.udp.udpRecvBuf 0 92 }
  rw [C64WireGuard.handleType2]
  split
  · have hcall : Spares m (callHsProcessResponse env m').2 := by
      refine Spares.log_event (h.trans ?_) rfl
      exact ⟨hcells, fun _ => hu, id, [], rfl, by simp⟩
    generalize callHsProcessResponse env m' = r at *
    dsimp only
    split
    · apply printString
      apply timerSessionStart
      apply setState _ (by decide)
      refine Spares.log_event ?_ rfl
      exact hcall.elsewhere rfl rfl rfl
    · exact (hcall.sessionReset env).printString _
  · exact h

/-! ### Timers and commands -/

theorem timerCheck (h : Spares m m') (env : Env σ) : Spares m (timerCheck env m') := by
  have hstart : Spares m ((m'.elapse env).log (.timerCheck (m'.elapse env).ticks)) :=
    (h.elapse env).log_event rfl
  rw [C64WireGuard.timerCheck]
  generalize (m'.elapse env).log (.timerCheck (m'.elapse env).ticks) = r at *
  split
  · exact hstart
  · rw [timerCheckHandshake]
    dsimp only
    split_ifs
    · exact ((hstart.elapse env).sessionReset env).printString _
    · exact hstart.elapse env
    · exact hstart
  · have hrekey : Spares m (checkRekey env r) := by
      rw [checkRekey]
      dsimp only
      split_ifs
      · exact hstart
      · apply printString
        exact (hstart.elapse env).elsewhere rfl rfl rfl
      · exact hstart.elapse env
    rw [timerCheckActive]
    split
    · exact (hstart.sessionReset env).printString _
    · rw [checkKeepalive]
      dsimp only
      split
      · apply printString
        apply timerMarkSend
        apply transportSend
        exact (hrekey.elapse env).elsewhere rfl rfl rfl
      · exact hrekey.elapse env

theorem doNetInit (h : Spares m m') (env : Env σ) : Spares m (doNetInit env m') := by
  rw [C64WireGuard.doNetInit]
  have hinit : Spares m { m'.printString .netInitMsg with
      world := (env.net.netInit (m'.printString .netInitMsg).world).1 } :=
    (h.printString .netInitMsg).elsewhere rfl rfl rfl
  generalize env.net.netInit (m'.printString .netInitMsg).world = r at *
  dsimp only
  split
  · exact hinit.printString _
  · have hdhcp := hinit.printString .netDhcpMsg
    generalize ({ m'.printString .netInitMsg with world := r.1 } : Machine σ).printString
      .netDhcpMsg = m₁ at *
    have hacquire : Spares m { m₁ with world := (env.net.netDhcpAcquire m₁.world).1 } :=
      hdhcp.elsewhere rfl rfl rfl
    generalize env.net.netDhcpAcquire m₁.world = r at *
    split
    · exact hacquire.printString _
    · have hok := hacquire.printString .netOkMsg
      generalize ({ m₁ with world := r.1 } : Machine σ).printString .netOkMsg = m₂ at *
      have hlisten : Spares m { m₂ with world := (env.net.netUdpListen m₂.world).1 } :=
        hok.elsewhere rfl rfl rfl
      split
      · exact hlisten.printString _
      · exact (hlisten.printString .netListenMsg).elsewhere rfl rfl rfl

theorem doSendTest (h : Spares m m') (env : Env σ) : Spares m (doSendTest env m') := by
  rw [C64WireGuard.doSendTest]
  apply printString
  apply transportSend
  exact h.elsewhere rfl rfl rfl

theorem doPing (h : Spares m m') (env : Env σ) : Spares m (doPing env m') := by
  rw [C64WireGuard.doPing]
  split
  · apply printString
    apply timerMarkSend
    apply transportSend
    exact h.elsewhere rfl rfl rfl
  · exact h.printString _

theorem readInputLine (h : Spares m m') (env : Env σ) : Spares m (readInputLine env m') := by
  rw [C64WireGuard.readInputLine]
  apply elapse
  apply chroutAll
  exact h.elsewhere rfl rfl rfl

theorem doMessageInput (h : Spares m m') (env : Env σ) : Spares m (doMessageInput env m') := by
  rw [C64WireGuard.doMessageInput]
  split
  · have hline := (h.printString .msgPrompt).readInputLine env
    generalize C64WireGuard.readInputLine env (m'.printString .msgPrompt) = r at *
    have hsend : Spares m (C64WireGuard.transportSend env .message (stageIpPacket { r with
        ip := udpTunnelBuild env.build (.ipPacketBuf ipUdpHdrLen) r.ip.msgInputLen r.cfg r.ip })).1 := by
      apply transportSend
      exact hline.elsewhere rfl rfl rfl
    dsimp only
    split
    · exact (hsend.printString _).chroutAll _
    · exact (hsend.timerMarkSend env).printString _
  · exact h.printString _

theorem doLoadConfig (h : Spares m m') (env : Env σ) : Spares m (doLoadConfig env m') := by
  rw [C64WireGuard.doLoadConfig]
  apply printString
  exact (h.printString .cfgLoadingMsg).elsewhere rfl rfl rfl

/-- Every command but the handshake. -/
theorem runCommand (h : Spares m m') (env : Env σ) {c : Command} (hc : c ≠ .handshake) :
    Spares m (runCommand env m' c) := by
  cases c with
  | quit => exact h.netUdpClose env
  | netInit => exact h.doNetInit env
  | handshake => exact absurd rfl hc
  | sendTest => exact h.doSendTest env
  | ping => exact h.doPing env
  | message => exact h.doMessageInput env
  | loadConfig => exact h.doLoadConfig env

theorem getCommand (h : Spares m m') (env : Env σ) : Spares m (getCommand env m').2 := by
  rw [C64WireGuard.getCommand]
  apply elapse
  exact h.elsewhere rfl rfl rfl

theorem entropyInit (h : Spares m m') (env : Env σ) : Spares m (entropyInit env m') :=
  h.elsewhere rfl rfl rfl

/-- A cookie reply that is not accepted. -/
theorem callCookieHandleType3 (h : Spares m m') (env : Env σ)
    (hno : (callCookieHandleType3 env m').1 = false) :
    Spares m (callCookieHandleType3 env m').2 := by
  obtain ⟨cm, hu, heq⟩ := cookieHandleType3_spec env.prims m'.cfg.cfgPeerPub m'.udp m'.hs
  rw [C64WireGuard.callCookieHandleType3] at hno ⊢
  rw [heq] at hno ⊢
  generalize openCookie env.prims m'.cfg.cfgPeerPub m'.udp (slice m'.hs.hsPacket 116 16) = o at *
  refine Spares.log_event ?_ rfl
  by_cases hpre : slice m'.udp.udpRecvBuf 4 4 = m'.hs.hsSenderIdx ∧ m'.hs.hsMac1Valid = true
  · rw [if_pos hpre] at hno ⊢
    dsimp only at hno ⊢
    refine h.trans ⟨?_, fun _ => hu, id, [], rfl, by simp⟩
    simp only [HsMem.outstanding, hno, Bool.or_false]
  · rw [if_neg hpre]
    exact h

end Spares

/-! ## The outstanding initiation -/

/-- The handshake cells that building a message does not touch. -/
def HsMem.staged (hs : HsMem) : Bytes 32 × Bytes 4 × Bytes 32 × Bool × Bytes 4 :=
  (hs.hsRespPub, hs.hsSenderIdx, hs.cookieBuf, hs.cookieValid, slice hs.hsPacket 4 4)

theorem hsEncrypt_staged (p : Primitives) {off n : Nat} (hoff : 8 ≤ off) (data : Bytes n)
    (m : HsMem) : (hsEncrypt p off data m).staged = m.staged := by
  have hpkt : ∀ (pkt : Bytes 148) {off k : Nat} (src : Bytes k), 8 ≤ off →
      slice (copyIn pkt off src) 4 4 = slice pkt 4 4 :=
    fun _ _ _ _ hoff => slice_copyIn_disjoint _ _ (.inr hoff)
  rw [hsEncrypt]
  dsimp only
  split
  · simp only [HsMem.staged, hsMixHash, hpkt _ _ (Nat.le_add_right_of_le hoff), hpkt _ _ hoff]
  · simp only [HsMem.staged, hsMixHash, hpkt _ _ (Nat.le_add_right_of_le hoff), hpkt _ _ hoff]

theorem hsWriteMessage_staged (p : Primitives) (m : HsMem) :
    (hsWriteMessage p m).staged = m.staged := by
  have hmix (priv pub : Bytes 32) (m : HsMem) : (hsMixDh p kdf2 priv pub m).staged = m.staged := rfl
  rw [hsWriteMessage, hsEncrypt_staged p (by decide), hmix, hsEncrypt_staged p (by decide), hmix]
  rfl

/-- What `hs_create_initiation` leaves for the cookie exchange, whatever it started with: the guard
armed, no cookie, the index in the packet, and MAC2 over what stands before it. -/
theorem hsCreateInitiation_macs (p : Primitives) (m : HsMem) :
    let r := hsCreateInitiation p m
    Unkeyed r.b2s ∧ r.hsMac1Valid = true ∧ r.cookieValid = false ∧ r.hsRespPub = m.hsRespPub ∧
      slice r.hsPacket 4 4 = r.hsSenderIdx ∧
      slice r.hsPacket 132 16 = mac2 m.cookieValid m.cookieBuf (r.hsPacket.toList.take 132) := by
  intro r
  have hhdr : (hsEphemeral p (hsInit m)).staged =
      (m.hsRespPub, m.hsSenderIdx, m.cookieBuf, m.cookieValid, m.hsSenderIdx) := by
    have hidx : slice (hsEphemeral p (hsInit m)).hsPacket 4 4 = m.hsSenderIdx := by
      simp only [hsEphemeral, hsInit]
      rw [slice_copyIn_disjoint _ _ (.inr (by decide)), slice_copyIn_self _ _ (by decide)]
    simp only [HsMem.staged, hidx]
    rfl
  rw [← hsWriteMessage_staged p] at hhdr
  obtain ⟨cm, pkt, hmacs, hun, hpkt⟩ := hsMacs_spec (hsWriteMessage p (hsEphemeral p (hsInit m)))
  have hr : r = hsMacs (hsWriteMessage p (hsEphemeral p (hsInit m))) := rfl
  generalize hsWriteMessage p (hsEphemeral p (hsInit m)) = w at *
  simp only [HsMem.staged, Prod.mk.injEq] at hhdr
  obtain ⟨hpub, hidx, hbuf, hval, hslice⟩ := hhdr
  have hbody : pkt.toList.take 132 = (slice w.hsPacket 0 116).toList ++
      (Blake2s.digest 16 w.hsMac1Key.toList (slice w.hsPacket 0 116).toList).toList := by
    rw [hpkt]
    exact List.take_left' (by simp)
  have hmac2 : (slice pkt 132 16).toList =
      (mac2 w.cookieValid w.cookieBuf (pkt.toList.take 132)).toList := by
    rw [hbody, toList_slice _ (by decide), hpkt, List.drop_left' (by simp),
      List.take_of_length_le (by simp)]
  have hindex : slice pkt 4 4 = slice w.hsPacket 4 4 := by
    have htake : pkt.toList.take 116 = (slice w.hsPacket 0 116).toList := by
      rw [hpkt, List.append_assoc]
      exact List.take_left' (by simp)
    apply toList_inj.mp
    rw [toList_slice _ (by decide), toList_slice _ (by decide)]
    rw [toList_slice _ (by decide), List.drop_zero] at htake
    have hdrop := congrArg (fun l => (l.drop 4).take 4) htake
    simpa [List.drop_take, List.take_take] using hdrop
  rw [hr, hmacs]
  refine ⟨hun, rfl, rfl, hpub, ?_, ?_⟩
  · exact hindex.trans (hslice.trans hidx.symm)
  · rw [← hbuf, ← hval]
    exact toList_inj.mp hmac2

/-- The cells hold the last Type 1 packet handed to the adapter, its sender index, and the key of the
peer that some earlier call of `session_initiate` made it for. -/
structure Outstanding (env : Env σ) (m : Machine σ) : Prop where
  unkeyed : Unkeyed m.hs.b2s
  mac1Valid : m.hs.hsMac1Valid = true
  packet : (initiations m.trace).head? = some m.hs.hsPacket.toList
  index : slice m.hs.hsPacket 4 4 = m.hs.hsSenderIdx
  origin : ∃ m₀ : Machine σ, m.hs.hsRespPub = m₀.cfg.cfgPeerPub ∧
    m.hs.hsPacket = (hsCreateInitiation env.prims (sessionPrepare env m₀).hs).hsPacket

/-- Between two calls of `session_initiate`: no cookie is held, and an initiation that is waited for
is outstanding. -/
structure Waits (env : Env σ) (m : Machine σ) : Prop where
  cookieValid : m.hs.cookieValid = false
  sent : m.wgState = .hsSent → Outstanding env m

theorem Waits.keeps {env : Env σ} {m m' : Machine σ} (h : Waits env m) (hk : Spares m m') :
    Waits env m' := by
  have hcells := hk.cells
  simp only [HsMem.outstanding, Prod.mk.injEq] at hcells
  obtain ⟨hpkt, hidx, hpub, hmac, hval⟩ := hcells
  obtain ⟨new, hlog, hsilent⟩ := hk.log
  refine ⟨hval.trans h.cookieValid, fun hst => ?_⟩
  have ho := h.sent (hk.state hst)
  refine ⟨hk.unkeyed ho.unkeyed, hmac.trans ho.mac1Valid, ?_, ?_, ?_⟩
  · rw [hlog, initiations_append hsilent, hpkt, ho.packet]
  · rw [hpkt, hidx, ho.index]
  · rw [hpub, hpkt]
    exact ho.origin

/-- The handshake cells and the log after `session_initiate`, sent or not. -/
theorem sessionInitiate_log (env : Env σ) (m : Machine σ) :
    ∃ newer dest carry,
      (sessionInitiate env m).trace =
        newer ++ .netUdpSend dest (sessionInitiate env m).hs.hsPacket.toList carry ::
          (closedFor m ++ m.trace) ∧
      ∀ e ∈ newer, e.Silent := by
  obtain ⟨priv, idx, ts, tai, e, w, t, hprep⟩ := sessionPrepare_spec env m
  have htrace : (sessionPrepare env m).trace = closedFor m ++ m.trace := by rw [hprep]
  have hsent : (sendInitiation env (sessionPrepare env m)).1.trace =
      .netUdpSend (sessionPrepare env m).wgPeer
        (sendInitiation env (sessionPrepare env m)).1.hs.hsPacket.toList
        (sendInitiation env (sessionPrepare env m)).2 :: (closedFor m ++ m.trace) := by
    rw [← htrace]
    rfl
  rw [sessionInitiate]
  generalize sendInitiation env (sessionPrepare env m) = r at *
  split
  · refine ⟨[.printString .hsSendErrMsg, .netUdpClose, .setState .idle],
      (sessionPrepare env m).wgPeer, r.2, ?_, by simp [Event.Silent, Event.initiation]⟩
    exact congrArg
      ([.printString .hsSendErrMsg, .netUdpClose, .setState .idle] ++ · : List Event → _) hsent
  · refine ⟨[.timerSessionStart ((r.1.setState .hsSent).elapse env).ticks, .setState .hsSent],
      (sessionPrepare env m).wgPeer, r.2, ?_, by simp [Event.Silent, Event.initiation]⟩
    exact congrArg ([.timerSessionStart ((r.1.setState .hsSent).elapse env).ticks,
      .setState .hsSent] ++ · : List Event → _) hsent

theorem silent_closedFor (m : Machine σ) : ∀ e ∈ closedFor m, e.Silent := by
  intro e he
  rw [closedFor] at he
  split at he
  · cases he
  · rw [List.mem_singleton] at he
    subst he
    rfl

/-- A call of `session_initiate` hands exactly one Type 1 packet to the adapter. -/
theorem initiations_sessionInitiate (env : Env σ) (m : Machine σ) :
    initiations (sessionInitiate env m).trace =
      (sessionInitiate env m).hs.hsPacket.toList :: initiations m.trace := by
  obtain ⟨newer, dest, carry, hlog, hsilent⟩ := sessionInitiate_log env m
  have hhead : (sessionInitiate env m).hs.hsPacket.toList.head? = some 1 := by
    rw [sessionInitiate_hs, head?_toList _ (by decide)]
    exact congrArg (fun r => some r.2.2) (hsCreateInitiation_frame env.prims (sessionPrepare env m).hs)
  generalize sessionInitiate env m = r at *
  rw [hlog, initiations_append hsilent]
  have hcons : initiations (.netUdpSend dest r.hs.hsPacket.toList carry ::
      (closedFor m ++ m.trace)) =
      r.hs.hsPacket.toList :: initiations (closedFor m ++ m.trace) :=
    List.filterMap_cons_some (if_pos hhead)
  rw [hcons, initiations_append (silent_closedFor m)]

/-- MAC2 of the packet that `session_initiate` builds: keyed with the cookie when one is held. -/
theorem sessionInitiate_mac2 (env : Env σ) (m : Machine σ) :
    slice (sessionInitiate env m).hs.hsPacket 132 16 =
      mac2 m.hs.cookieValid m.hs.cookieBuf
        ((sessionInitiate env m).hs.hsPacket.toList.take 132) := by
  obtain ⟨-, -, -, -, -, hmac⟩ := hsCreateInitiation_macs env.prims (sessionPrepare env m).hs
  obtain ⟨priv, idx, ts, tai, e, w, t, hprep⟩ := sessionPrepare_spec env m
  have hval : (sessionPrepare env m).hs.cookieValid = m.hs.cookieValid := by
    rw [hprep]
    rfl
  have hbuf : (sessionPrepare env m).hs.cookieBuf = m.hs.cookieBuf := by
    rw [hprep]
    rfl
  rw [sessionInitiate_hs, hmac, hval, hbuf]

/-- A Type 3 packet in `HS_SENT`, by its verdict. -/
theorem sessionHandlePacket_type3 (env : Env σ) {m : Machine σ} (hst : m.wgState = .hsSent)
    (htype : byte m.udp.udpRecvBuf 0 = 3) :
    let r := callCookieHandleType3 env
      { m with udp := { m.udp with udpRecvReady := false } }
    sessionHandlePacket env m =
      if r.1 then sessionInitiate env (r.2.printString .cookieRecvMsg) else r.2 := by
  have hne : byte m.udp.udpRecvBuf 0 ≠ 2 := by
    rw [htype]
    decide
  simp only [sessionHandlePacket, if_neg hne, if_pos htype, handleType3, if_pos hst]

/-- After `session_initiate` its own packet is the outstanding one. -/
theorem sessionInitiate_waits (env : Env σ) (m : Machine σ) : Waits env (sessionInitiate env m) := by
  have hcells := sessionInitiate_hs env m
  have hsent := initiations_sessionInitiate env m
  obtain ⟨hun, hmac, hval, hpub, hidx, -⟩ := hsCreateInitiation_macs env.prims (sessionPrepare env m).hs
  have hpeer : (sessionPrepare env m).hs.hsRespPub = m.cfg.cfgPeerPub := by
    obtain ⟨priv, idx, ts, tai, e, w, t, hprep⟩ := sessionPrepare_spec env m
    rw [hprep]
    rfl
  refine ⟨by rw [hcells, hval], fun _ => ⟨by rw [hcells]; exact hun, by rw [hcells, hmac], ?_, ?_, ?_⟩⟩
  · rw [hsent, List.head?_cons]
  · rw [hcells, hidx]
  · exact ⟨m, by rw [hcells, hpub, hpeer], by rw [hcells]⟩

/-! ## Every run -/

/-- What one iteration of the main loop preserves holds in every run. -/
theorem run_invariant {env : Env σ} {P : Machine σ → Prop}
    (hstep : ∀ m, P m → P (mainLoop env m).1) (n : Nat) {m : Machine σ} (h : P m) :
    P (run env n m) := by
  induction n generalizing m with
  | zero => exact h
  | succ n ih =>
      rw [run]
      split
      · exact ih (hstep m h)
      · exact hstep m h

section Rule

variable {env : Env σ} {P : Machine σ → Prop} (hkeep : ∀ {m m' : Machine σ}, P m → Spares m m' → P m')
  (haccept : ∀ {m : Machine σ}, P m → m.wgState = .hsSent → (callCookieHandleType3 env m).1 = true →
    P (sessionInitiate env ((callCookieHandleType3 env m).2.printString .cookieRecvMsg)))

include hkeep haccept

theorem sessionHandlePacket_rule {m : Machine σ} (h : P m) : P (sessionHandlePacket env m) := by
  have hk : Spares m { m with udp := { m.udp with udpRecvReady := false } } :=
    (Spares.refl m).elsewhere rfl rfl rfl
  have hready := hkeep h hk
  rw [sessionHandlePacket]
  generalize ({ m with udp := { m.udp with udpRecvReady := false } } : Machine σ) = m' at *
  split_ifs
  · exact hkeep h (hk.handleType2 env)
  · rw [handleType3]
    split
    · rename_i hst
      dsimp only
      split
      · rename_i hok
        exact haccept hready hst hok
      · rename_i hno
        exact hkeep h (hk.callCookieHandleType3 env (Bool.eq_false_of_not_eq_true hno))
    · exact hready
  · exact hkeep h (hk.handleType4 env)
  · exact hready

/-- What routines that leave the initiation alone preserve, and both calls of `session_initiate`, an
iteration of the main loop preserves. -/
theorem mainLoop_rule (hinitiate : ∀ {m : Machine σ}, P m → P (sessionInitiate env m))
    {m : Machine σ} (h : P m) : P (mainLoop env m).1 := by
  have hpoll : P (pollAndHandle env m) := by
    have helapse := hkeep h ((Spares.refl m).elapse env)
    rw [pollAndHandle]
    generalize m.elapse env = m' at *
    dsimp only
    have hudp : P { m' with
        world := (env.net.netPoll m'.netUdpDest m'.udp m'.world).1
        udp := (env.net.netPoll m'.netUdpDest m'.udp m'.world).2 } :=
      hkeep helapse ((Spares.refl m').elsewhere rfl rfl rfl)
    split
    · split
      · exact sessionHandlePacket_rule hkeep haccept hudp
      · exact hudp
    · exact helapse
  have hget : P (commandPoint env m).2 :=
    hkeep hpoll (((Spares.refl _).timerCheck env).getCommand env)
  rw [mainLoop]
  split
  · exact hget
  · rename_i c _
    by_cases hc : c = .handshake
    · subst hc
      refine hinitiate (hkeep hget (((Spares.refl _).printString .hsStartMsg).entropyInit env))
    · exact hkeep hget ((Spares.refl _).runCommand env hc)

end Rule

/-- **The outstanding initiation is kept.** In every run, at every return to the main loop, no cookie
is held, and in `HS_SENT` the cells hold the last Type 1 packet sent. -/
theorem run_waits (env : Env σ) (b2sKeyLen : UInt8) (world : σ) (ticks n : Nat) :
    Waits env (run env n (Machine.start b2sKeyLen world ticks)) :=
  run_invariant (fun _ => mainLoop_rule Waits.keeps (fun _ _ _ => sessionInitiate_waits env _)
    fun _ => sessionInitiate_waits env _) n ⟨rfl, fun hc => by cases hc⟩

end C64WireGuard
