import C64WireGuard.Outstanding

/-!
# Nothing reads the scratch

`Alike m m'` says that two machines differ at most in cells that no later step reads before it writes
them: the crypto scratch, `hs_dh_result`, the bytes of `cookie_buf` that hold no cookie, and the log,
as long as both sent the same Type 1 packets. Every routine takes machines that are alike to machines
that are alike, so they go on sending the same Type 1 packets (`run_alike`).

The hash parameters are part of the scratch that is read: both machines keep the convention.
-/

namespace C64WireGuard

open Bytes

variable {σ : Type}

/-! ## Handshake cells -/

/-- Handshake cells with other scratch. -/
def HsMem.withScratch (hs : HsMem) (cm : CryptoMem) (dh cookieBuf : Bytes 32) : HsMem :=
  { hs with toCryptoMem := cm, hsDhResult := dh, cookieBuf := cookieBuf }

/-- Handshake cells that differ at most in scratch. -/
structure HsMem.Alike (hs hs' : HsMem) : Prop where
  cells : ∃ cm dh buf, hs' = hs.withScratch cm dh buf
  cookie : hs.cookieValid = true → slice hs'.cookieBuf 0 16 = slice hs.cookieBuf 0 16
  unkeyed : Unkeyed hs.b2s
  unkeyed' : Unkeyed hs'.b2s

namespace HsMem.Alike

variable {hs hs' : HsMem}

/-- Writes that have nothing to do with scratch. -/
theorem map (h : hs.Alike hs') {f : HsMem → HsMem}
    (hf : ∀ hs cm dh buf, f (hs.withScratch cm dh buf) = (f hs).withScratch cm dh buf)
    (hval : (f hs).cookieValid = hs.cookieValid) (hbuf : (f hs).cookieBuf = hs.cookieBuf)
    (hb : (f hs).b2s = hs.b2s) : (f hs).Alike (f hs') := by
  obtain ⟨cm, dh, buf, rfl⟩ := h.cells
  rw [hf]
  refine ⟨⟨cm, dh, buf, rfl⟩, fun hc => ?_, by rw [hb]; exact h.unkeyed, h.unkeyed'⟩
  rw [hbuf]
  exact h.cookie (hval ▸ hc)

/-- Writes to the crypto scratch that keep the convention. -/
theorem scratch (h : hs.Alike hs') {cm cm' : CryptoMem} (hu : Unkeyed cm.b2s)
    (hu' : Unkeyed cm'.b2s) :
    HsMem.Alike { hs with toCryptoMem := cm } { hs' with toCryptoMem := cm' } := by
  obtain ⟨cm₀, dh, buf, rfl⟩ := h.cells
  exact ⟨⟨cm', dh, buf, rfl⟩, h.cookie, hu, hu'⟩

/-- The initiations are the same. -/
theorem hsCreateInitiation {p : Primitives} (ha : AeadAccepts p) (h : hs.Alike hs') :
    (hsCreateInitiation p hs).Alike (hsCreateInitiation p hs') ∧
      (C64WireGuard.hsCreateInitiation p hs').hsPacket =
        (C64WireGuard.hsCreateInitiation p hs).hsPacket := by
  have hpacket : initiationPacket p hs' = initiationPacket p hs := by
    obtain ⟨cm, dh, buf, rfl⟩ := h.cells
    have hbody : initiationBody p (hs.withScratch cm dh buf) = initiationBody p hs := rfl
    have hmac : ∀ body, mac2 hs.cookieValid buf body = mac2 hs.cookieValid hs.cookieBuf body := by
      intro body
      rw [mac2, mac2]
      split
      · rename_i hc
        rw [show slice buf 0 16 = _ from h.cookie hc]
      · rfl
    rw [initiationPacket, initiationPacket, hbody]
    exact congrArg (_ ++ ·) (congrArg Vector.toList (hmac _))
  obtain ⟨cm₁, dh₁, h₁, hu₁, -⟩ := hsCreateInitiation_spec ha h.unkeyed
  obtain ⟨cm₂, dh₂, h₂, hu₂, -⟩ := hsCreateInitiation_spec ha h.unkeyed'
  obtain ⟨cm, dh, buf, rfl⟩ := h.cells
  have hstate : initiation p (hs.withScratch cm dh buf) = initiation p hs := rfl
  rw [hpacket, hstate] at h₂
  rw [h₁, h₂]
  generalize initiation p hs = i at *
  generalize initiationPacket p hs = pkt at *
  exact ⟨⟨⟨cm₂, dh₂, buf, rfl⟩, fun hc => (by cases hc), hu₁, hu₂⟩, rfl⟩

/-- So is what becomes of a response. -/
theorem hsProcessResponse (p : Primitives) (h : hs.Alike hs') :
    (hsProcessResponse p hs').1 = (hsProcessResponse p hs).1 ∧
      (C64WireGuard.hsProcessResponse p hs).2.Alike (C64WireGuard.hsProcessResponse p hs').2 := by
  obtain ⟨cm₁, dh₁, s₁, hu₁, hcase₁⟩ := hsProcessResponse_spec p hs
  obtain ⟨cm₂, dh₂, s₂, hu₂, hcase₂⟩ := hsProcessResponse_spec p hs'
  have hcookie := h.cookie
  obtain ⟨cm, dh, buf, rfl⟩ := h.cells
  have hresp : response p (hs.withScratch cm dh buf) = response p hs := rfl
  have hstate : responseState p (hs.withScratch cm dh buf) = responseState p hs := rfl
  rw [hresp, hstate] at hcase₂
  generalize response p hs = r at *
  generalize responseState p hs = st at *
  rcases hcase₁ with ⟨hr₁, heq₁⟩ | ⟨hr₁, heq₁⟩ <;> rcases hcase₂ with ⟨hr₂, heq₂⟩ | ⟨hr₂, heq₂⟩
  · have hs₁₂ : s₂ = s₁ := by
      rw [hr₁] at hr₂
      injection hr₂ with hr
      injection hr with hr
      exact hr.symm
    subst hs₁₂
    rw [heq₁, heq₂]
    generalize Noise.split (c64Suite p) s₂ = keys
    exact ⟨rfl, ⟨⟨cm₂, dh₂, buf, rfl⟩, hcookie, hu₁, hu₂⟩⟩
  · rw [hr₁] at hr₂
    cases hr₂
  · rw [hr₁] at hr₂
    cases hr₂
  · rw [heq₁, heq₂]
    exact ⟨rfl, ⟨⟨cm₂, dh₂, buf, rfl⟩, hcookie, hu₁, hu₂⟩⟩

/-- And of a cookie reply. -/
theorem cookieHandleType3 (p : Primitives) (pub : Bytes 32) (udp : UdpRecv) (h : hs.Alike hs') :
    (cookieHandleType3 p pub udp hs').1 = (cookieHandleType3 p pub udp hs).1 ∧
      (C64WireGuard.cookieHandleType3 p pub udp hs).2.Alike
        (C64WireGuard.cookieHandleType3 p pub udp hs').2 := by
  obtain ⟨cm₁, hu₁, h₁⟩ := cookieHandleType3_spec p pub udp hs
  obtain ⟨cm₂, hu₂, h₂⟩ := cookieHandleType3_spec p pub udp hs'
  rw [h₁, h₂]
  have hcookie := h.cookie
  have halike := h
  obtain ⟨cm, dh, buf, rfl⟩ := h.cells
  have hpkt : (hs.withScratch cm dh buf).hsPacket = hs.hsPacket := rfl
  have hidx : (hs.withScratch cm dh buf).hsSenderIdx = hs.hsSenderIdx := rfl
  have hmac : (hs.withScratch cm dh buf).hsMac1Valid = hs.hsMac1Valid := rfl
  rw [hpkt, hidx, hmac]
  generalize openCookie p pub udp (slice hs.hsPacket 116 16) = o
  split
  · refine ⟨rfl, ⟨⟨cm₂, dh, copyIn buf 0 o.2, rfl⟩, fun _ => ?_, hu₁, hu₂⟩⟩
    exact (slice_copyIn_self _ _ (by decide)).trans (slice_copyIn_self _ _ (by decide)).symm
  · exact ⟨rfl, halike⟩

end HsMem.Alike

/-! ## Machines -/

/-- Machines that differ at most in scratch and log, and that sent the same Type 1 packets. -/
structure Alike (m m' : Machine σ) : Prop where
  hs : m.hs.Alike m'.hs
  rest : ∃ hs' log, m' = { m with hs := hs', trace := log }
  sent : initiations m'.trace = initiations m.trace

namespace Alike

variable {m m' : Machine σ}

/-- Routines that touch neither the handshake cells nor the log. -/
theorem map (h : Alike m m') {f : Machine σ → Machine σ}
    (hf : ∀ (m : Machine σ) hs log,
      f { m with hs := hs, trace := log } = { f m with hs := hs, trace := log }) :
    Alike (f m) (f m') := by
  have hself : f m = { f m with hs := m.hs, trace := m.trace } := hf m m.hs m.trace
  have hhs : (f m).hs = m.hs := by rw [hself]
  have htrace : (f m).trace = m.trace := by rw [hself]
  obtain ⟨hs', log, rfl⟩ := h.rest
  rw [hf m hs' log]
  refine ⟨?_, ⟨hs', log, rfl⟩, ?_⟩
  · rw [hhs]
    exact h.hs
  · rw [htrace]
    exact h.sent

/-- Writes of handshake cells. -/
theorem setHs (h : Alike m m') {hs hs' : HsMem} (hhs : hs.Alike hs') :
    Alike { m with hs := hs } { m' with hs := hs' } := by
  obtain ⟨hs₀, log, rfl⟩ := h.rest
  exact ⟨hhs, ⟨hs', log, rfl⟩, h.sent⟩

/-- The same calls. -/
theorem emit (h : Alike m m') (new : List Event) :
    Alike { m with trace := new ++ m.trace } { m' with trace := new ++ m'.trace } := by
  have hsent : initiations (new ++ m'.trace) = initiations (new ++ m.trace) := by
    have hs := h.sent
    simp only [initiations, List.filterMap_append] at hs ⊢
    rw [hs]
  obtain ⟨hs', log, rfl⟩ := h.rest
  exact ⟨h.hs, ⟨hs', _, rfl⟩, hsent⟩

theorem log (h : Alike m m') (e : Event) : Alike (m.log e) (m'.log e) := h.emit [e]

theorem log_eq (h : Alike m m') {e e' : Event} (he : e' = e) : Alike (m.log e) (m'.log e') := by
  rw [he]
  exact h.log e

theorem printString (h : Alike m m') (s : Str) : Alike (m.printString s) (m'.printString s) :=
  h.log _

theorem chroutAll (h : Alike m m') (bs : List UInt8) : Alike (m.chroutAll bs) (m'.chroutAll bs) :=
  h.emit _

section Cells

variable (h : Alike m m')

include h

theorem wgState : m'.wgState = m.wgState := by
  obtain ⟨_, _, rfl⟩ := h.rest
  rfl

theorem timer : m'.timer = m.timer := by
  obtain ⟨_, _, rfl⟩ := h.rest
  rfl

theorem tp : m'.tp = m.tp := by
  obtain ⟨_, _, rfl⟩ := h.rest
  rfl

theorem udp : m'.udp = m.udp := by
  obtain ⟨_, _, rfl⟩ := h.rest
  rfl

theorem cfg : m'.cfg = m.cfg := by
  obtain ⟨_, _, rfl⟩ := h.rest
  rfl

theorem ip : m'.ip = m.ip := by
  obtain ⟨_, _, rfl⟩ := h.rest
  rfl

theorem wgPeer : m'.wgPeer = m.wgPeer := by
  obtain ⟨_, _, rfl⟩ := h.rest
  rfl

theorem world : m'.world = m.world := by
  obtain ⟨_, _, rfl⟩ := h.rest
  rfl

theorem ticks : m'.ticks = m.ticks := by
  obtain ⟨_, _, rfl⟩ := h.rest
  rfl

theorem netInitialized : m'.netInitialized = m.netInitialized := by
  obtain ⟨_, _, rfl⟩ := h.rest
  rfl

theorem netUdpDest : m'.netUdpDest = m.netUdpDest := by
  obtain ⟨_, _, rfl⟩ := h.rest
  rfl

theorem hsCells : m'.hs.hsTransportSend = m.hs.hsTransportSend ∧
    m'.hs.hsTransportRecv = m.hs.hsTransportRecv ∧ m'.hs.hsRespPacket = m.hs.hsRespPacket := by
  obtain ⟨cm, dh, buf, heq⟩ := h.hs.cells
  rw [heq]
  exact ⟨rfl, rfl, rfl⟩

theorem jiffy : m'.jiffy = m.jiffy := by
  rw [Machine.jiffy, Machine.jiffy, h.ticks]

end Cells

/-! ### Routines that do not encrypt -/

theorem elapse (h : Alike m m') (env : Env σ) : Alike (m.elapse env) (m'.elapse env) :=
  h.map fun _ _ _ => rfl

theorem netUdpClose (h : Alike m m') (env : Env σ) :
    Alike (m.netUdpClose env) (m'.netUdpClose env) := by
  have hworld := h.map (f := fun m => { m with world := env.net.netUdpClose m.world })
    fun _ _ _ => rfl
  exact hworld.log .netUdpClose

theorem setState (h : Alike m m') (s : WgState) : Alike (m.setState s) (m'.setState s) := by
  have hstate := h.map (f := fun m => { m with wgState := s }) fun _ _ _ => rfl
  exact hstate.log (.setState s)

theorem sessionReset (h : Alike m m') (env : Env σ) :
    Alike (sessionReset env m) (sessionReset env m') := by
  rw [C64WireGuard.sessionReset, C64WireGuard.sessionReset]
  apply netUdpClose
  exact (h.setState .idle).map
    (f := fun m => { m with timer := { m.timer with hsTimerArmed := false } }) fun _ _ _ => rfl

theorem timerSessionStart (h : Alike m m') (env : Env σ) :
    Alike (timerSessionStart env m) (timerSessionStart env m') := by
  have hlog := (h.elapse env).log (.timerSessionStart (m.elapse env).ticks)
  rw [C64WireGuard.timerSessionStart, C64WireGuard.timerSessionStart, (h.elapse env).ticks]
  exact hlog.map (f := fun m => { m with timer := { m.timer with
    sessionStartJiffy := m.jiffy
    lastSendJiffy := m.jiffy
    hsTimerArmed := false } }) fun _ _ _ => rfl

theorem timerHandshakeStart (h : Alike m m') (env : Env σ) :
    Alike (timerHandshakeStart env m) (timerHandshakeStart env m') :=
  (h.timerSessionStart env).map
    (f := fun m => { m with timer := { m.timer with hsTimerArmed := true } }) fun _ _ _ => rfl

theorem timerMarkSend (h : Alike m m') (env : Env σ) :
    Alike (timerMarkSend env m) (timerMarkSend env m') :=
  (h.elapse env).map (f := fun m => { m with timer := { m.timer with lastSendJiffy := m.jiffy } })
    fun _ _ _ => rfl

theorem printPacket (h : Alike m m') (off len : Nat) :
    Alike (printPacket off len m) (printPacket off len m') := by
  rw [C64WireGuard.printPacket, C64WireGuard.printPacket, h.tp]
  exact h.chroutAll _

theorem displayPayload (h : Alike m m') : Alike (displayPayload m) (displayPayload m') := by
  rw [C64WireGuard.displayPayload, C64WireGuard.displayPayload, h.tp]
  exact (h.printString _).printPacket _ _

theorem handleUdp (h : Alike m m') (env : Env σ) : Alike (handleUdp env m) (handleUdp env m') := by
  have hip := h.map (f := fun m => { m with ip := (udpTunnelParse env.build m.tp m.ip).2 })
    fun _ _ _ => rfl
  rw [C64WireGuard.handleUdp, C64WireGuard.handleUdp, h.tp, h.ip]
  rw [h.tp, h.ip] at hip
  generalize udpTunnelParse env.build m.tp m.ip = r at *
  dsimp only
  split
  · exact (hip.printString _).printPacket _ _
  · exact hip.displayPayload

theorem routePayload (h : Alike m m') (env : Env σ) :
    Alike (routePayload env m) (routePayload env m') := by
  rw [C64WireGuard.routePayload, C64WireGuard.routePayload, handleIcmp, handleIcmp, h.tp]
  split_ifs
  · exact h.printString _
  · exact h.displayPayload
  · exact h.handleUdp env
  · exact h.displayPayload

theorem endpointUpdate (h : Alike m m') (env : Env σ) :
    Alike (endpointUpdate env m) (endpointUpdate env m') := by
  have hmoved := (h.map (f := fun m => { m with wgPeer := m.udp.udpRecvSrc })
    fun _ _ _ => rfl).netUdpClose env
  have hcond : m'.udp.udpRecvSrc = m'.wgPeer ↔ m.udp.udpRecvSrc = m.wgPeer := by
    rw [h.udp, h.wgPeer]
  rw [C64WireGuard.endpointUpdate, C64WireGuard.endpointUpdate]
  by_cases hc : m.udp.udpRecvSrc = m.wgPeer
  · rw [if_pos hc, if_pos (hcond.mpr hc)]
    exact h
  · rw [if_neg hc, if_neg (mt hcond.mp hc)]
    exact hmoved

/-! ### Transport -/

theorem transportEncrypt_snd (p : Primitives) (key : Bytes 32) (payload : Bytes udpRecvBufSize)
    (c c' : CryptoMem) (t : TpMem) :
    (transportEncrypt p key payload c' t).2 = (transportEncrypt p key payload c t).2 := by
  rw [transportEncrypt, transportEncrypt]
  dsimp only
  split
  · rfl
  · split <;> rfl

theorem payloadBytes_eq (h : Alike m m') : payloadBytes m' = payloadBytes m := by
  rw [payloadBytes, payloadBytes, h.tp, h.ip]

theorem callTransportEncrypt (h : Alike m m') (env : Env σ) (sender : Sender) :
    Alike (callTransportEncrypt env sender m).1 (callTransportEncrypt env sender m').1 ∧
      (C64WireGuard.callTransportEncrypt env sender m').2 =
        (C64WireGuard.callTransportEncrypt env sender m).2 := by
  have hb := Spares.b2s_transportEncrypt env.prims m.hs.hsTransportSend (payloadBytes m)
    m.hs.toCryptoMem m.tp
  have hb' := Spares.b2s_transportEncrypt env.prims m.hs.hsTransportSend (payloadBytes m)
    m'.hs.toCryptoMem m.tp
  have hsnd := transportEncrypt_snd env.prims m.hs.hsTransportSend (payloadBytes m)
    m.hs.toCryptoMem m'.hs.toCryptoMem m.tp
  have hu : Unkeyed (transportEncrypt env.prims m.hs.hsTransportSend (payloadBytes m)
      m.hs.toCryptoMem m.tp).1.b2s := by
    rw [hb]
    exact h.hs.unkeyed
  have hu' : Unkeyed (transportEncrypt env.prims m.hs.hsTransportSend (payloadBytes m)
      m'.hs.toCryptoMem m.tp).1.b2s := by
    rw [hb']
    exact h.hs.unkeyed'
  have hhs := h.hs.scratch hu hu'
  rw [C64WireGuard.callTransportEncrypt, C64WireGuard.callTransportEncrypt, h.hsCells.1,
    payloadBytes_eq h, h.tp]
  generalize transportEncrypt env.prims m.hs.hsTransportSend (payloadBytes m)
    m.hs.toCryptoMem m.tp = r at *
  generalize transportEncrypt env.prims m.hs.hsTransportSend (payloadBytes m)
    m'.hs.toCryptoMem m.tp = r' at *
  obtain ⟨c, t, carry, rekey⟩ := r
  obtain ⟨c', r'⟩ := r'
  dsimp only at hsnd hhs
  subst hsnd
  have hcells : Alike
      { m with
        hs := { m.hs with toCryptoMem := c }
        tp := t
        timer := { m.timer with rekeyPending := m.timer.rekeyPending || rekey } }
      { m' with
        hs := { m'.hs with toCryptoMem := c' }
        tp := t
        timer := { m'.timer with rekeyPending := m'.timer.rekeyPending || rekey } } := by
    refine ((h.setHs hhs).map (f := fun m => { m with
      tp := t
      timer := { m.timer with rekeyPending := m.timer.rekeyPending || rekey } }) ?_)
    exact fun _ _ _ => rfl
  cases carry with
  | true => exact ⟨hcells, rfl⟩
  | false =>
      refine ⟨hcells.log_eq ?_, rfl⟩
      dsimp only
      rw [h.wgState, h.ticks]

theorem netUdpSend (h : Alike m m') (env : Env σ) (pkt : List UInt8) :
    Alike (m.netUdpSend env pkt).1 (m'.netUdpSend env pkt).1 ∧
      (m'.netUdpSend env pkt).2 = (m.netUdpSend env pkt).2 := by
  have hworld := h.map
    (f := fun m => { m with world := (env.net.netUdpSend m.netUdpDest pkt m.world).1 })
    fun _ _ _ => rfl
  refine ⟨hworld.log_eq ?_, ?_⟩
  · rw [h.netUdpDest, h.world]
  · rw [Machine.netUdpSend, Machine.netUdpSend, h.netUdpDest, h.world]

theorem transportSend (h : Alike m m') (env : Env σ) (sender : Sender) :
    Alike (transportSend env sender m).1 (transportSend env sender m').1 ∧
      (C64WireGuard.transportSend env sender m').2 =
        (C64WireGuard.transportSend env sender m).2 := by
  obtain ⟨hcall, hcarry⟩ := h.callTransportEncrypt env sender
  rw [C64WireGuard.transportSend, C64WireGuard.transportSend, h.tp]
  split
  · exact ⟨h, rfl⟩
  · dsimp only
    rw [hcarry]
    generalize C64WireGuard.callTransportEncrypt env sender m = r at *
    generalize C64WireGuard.callTransportEncrypt env sender m' = r' at *
    split
    · exact ⟨hcall, rfl⟩
    · have hdest := hcall.map (f := sessionStageDest) fun _ _ _ => rfl
      rw [hcall.tp]
      exact hdest.netUdpSend env _

theorem decryptVerify_scratch (p : Primitives) (key : Bytes 32) (udp : UdpRecv)
    (c c' : CryptoMem) (t : TpMem) :
    (decryptVerify p key udp c' t).1 = (decryptVerify p key udp c t).1 ∧
      (decryptVerify p key udp c' t).2.2 = (decryptVerify p key udp c t).2.2 ∧
      (decryptVerify p key udp c t).2.1.b2s = c.b2s := by
  have htp : (decryptStage key udp c' t).2 = (decryptStage key udp c t).2 := rfl
  have hkey : (decryptStage key udp c' t).1.aeadKey = (decryptStage key udp c t).1.aeadKey := rfl
  have hnonce : (decryptStage key udp c' t).1.aeadNonce = (decryptStage key udp c t).1.aeadNonce :=
    rfl
  have htag : (decryptStage key udp c' t).1.aeadTag = (decryptStage key udp c t).1.aeadTag := rfl
  have hb : (decryptStage key udp c t).1.b2s = c.b2s := rfl
  rw [decryptVerify, decryptVerify]
  generalize decryptStage key udp c t = s at *
  generalize decryptStage key udp c' t = s' at *
  obtain ⟨c₁, t₁⟩ := s
  obtain ⟨c₂, t₂⟩ := s'
  dsimp only at *
  subst htp
  rw [hkey, hnonce, htag]
  generalize p.aeadDecrypt c₁.aeadKey c₁.aeadNonce [] (slice t₂.tpPacket 16 t.tpPayloadLen)
    c₁.aeadTag = r
  split
  · exact ⟨rfl, rfl, hb⟩
  · exact ⟨rfl, rfl, hb⟩

theorem transportDecrypt_scratch (p : Primitives) (key : Bytes 32) (udp : UdpRecv)
    (c c' : CryptoMem) (t : TpMem) :
    (transportDecrypt p key udp c' t).1 = (transportDecrypt p key udp c t).1 ∧
      (transportDecrypt p key udp c' t).2.2 = (transportDecrypt p key udp c t).2.2 ∧
      (transportDecrypt p key udp c t).2.1.b2s = c.b2s := by
  rw [transportDecrypt, transportDecrypt]
  dsimp only
  split_ifs
  · exact ⟨rfl, rfl, rfl⟩
  · exact ⟨rfl, rfl, rfl⟩
  · exact ⟨rfl, rfl, rfl⟩
  · exact decryptVerify_scratch p key udp c c' _
  · exact ⟨rfl, rfl, rfl⟩

/-- `tp_packet` with the received bytes, as `transport_decrypt` finds it. -/
def stagedTp (m : Machine σ) : TpMem :=
  { m.tp with
    tpPacket := copy16 m.tp.tpPacket 0 m.udp.udpRecvBuf 0 m.udp.udpRecvLen
    tpPacketLen := m.udp.udpRecvLen }

theorem callTransportDecrypt (h : Alike m m') (env : Env σ) :
    (callTransportDecrypt env m').1 = (callTransportDecrypt env m).1 ∧
      Alike (C64WireGuard.callTransportDecrypt env m).2
        (C64WireGuard.callTransportDecrypt env m').2 := by
  have hstaged : stagedTp m' = stagedTp m := by
    rw [stagedTp, stagedTp, h.tp, h.udp]
  obtain ⟨hok, htp, hb⟩ := transportDecrypt_scratch env.prims m.hs.hsTransportRecv m.udp
    m.hs.toCryptoMem m'.hs.toCryptoMem (stagedTp m)
  obtain ⟨-, -, hb'⟩ := transportDecrypt_scratch env.prims m.hs.hsTransportRecv m.udp
    m'.hs.toCryptoMem m'.hs.toCryptoMem (stagedTp m)
  rw [← h.hsCells.2.1, ← h.udp, ← hstaged] at hb'
  rw [C64WireGuard.callTransportDecrypt, C64WireGuard.callTransportDecrypt]
  rw [← stagedTp, ← stagedTp]
  nth_rewrite 1 [← h.hsCells.2.1, ← h.udp, ← hstaged] at hok htp
  have hhs := h.hs.scratch (by rw [hb]; exact h.hs.unkeyed) (by rw [hb']; exact h.hs.unkeyed')
  generalize transportDecrypt env.prims m'.hs.hsTransportRecv m'.udp m'.hs.toCryptoMem
    (stagedTp m') = r' at *
  generalize transportDecrypt env.prims m.hs.hsTransportRecv m.udp m.hs.toCryptoMem
    (stagedTp m) = r at *
  obtain ⟨ok', c', t'⟩ := r'
  dsimp only at hok htp
  subst hok htp
  have hcells := (h.setHs hhs).map (f := fun m => { m with tp := r.2.2 }) fun _ _ _ => rfl
  refine ⟨rfl, hcells.log_eq ?_⟩
  dsimp only
  rw [h.hsCells.2.1, h.ticks]

theorem handleType4 (h : Alike m m') (env : Env σ) :
    Alike (handleType4 env m) (handleType4 env m') := by
  obtain ⟨hok, hcall⟩ := h.callTransportDecrypt env
  rw [C64WireGuard.handleType4, C64WireGuard.handleType4, h.wgState]
  split
  · dsimp only
    rw [hok]
    split
    · exact (hcall.endpointUpdate env).routePayload env
    · exact hcall.printString _
  · exact h

/-! ### Handshakes -/

theorem handleType2 (h : Alike m m') (env : Env σ) :
    Alike (handleType2 env m) (handleType2 env m') := by
  have hpkt : HsMem.Alike { m.hs with hsRespPacket := slice m.udp.udpRecvBuf 0 92 }
      { m'.hs with hsRespPacket := slice m'.udp.udpRecvBuf 0 92 } := by
    rw [h.udp]
    exact h.hs.map (f := fun hs => { hs with hsRespPacket := slice m.udp.udpRecvBuf 0 92 })
      (fun _ _ _ _ => rfl) rfl rfl rfl
  obtain ⟨hok, hhs⟩ := hpkt.hsProcessResponse env.prims
  have hcall : Alike (callHsProcessResponse env m).2 (callHsProcessResponse env m').2 ∧
      (callHsProcessResponse env m').1 = (callHsProcessResponse env m).1 := by
    rw [callHsProcessResponse, callHsProcessResponse]
    dsimp only
    rw [hok]
    generalize hsProcessResponse env.prims
      { m.hs with hsRespPacket := slice m.udp.udpRecvBuf 0 92 } = r at *
    generalize hsProcessResponse env.prims
      { m'.hs with hsRespPacket := slice m'.udp.udpRecvBuf 0 92 } = r' at *
    have hcells := h.setHs hhs
    refine ⟨hcells.log_eq ?_, rfl⟩
    rw [hcells.hsCells.1, hcells.hsCells.2.1]
  rw [C64WireGuard.handleType2, C64WireGuard.handleType2, h.wgState]
  split
  · dsimp only
    rw [hcall.2]
    generalize callHsProcessResponse env m = r at *
    generalize callHsProcessResponse env m' = r' at *
    split
    · apply printString
      apply timerSessionStart
      apply setState
      apply log
      rw [hcall.1.hsCells.2.2]
      exact hcall.1.map (f := fun m => { m with tp := transportInit r.2.hs.hsRespPacket m.tp })
        fun _ _ _ => rfl
    · exact (hcall.1.sessionReset env).printString _
  · exact h

theorem entropyByte (h : Alike m m') (env : Env σ) (carry : Bool) :
    (entropyByte env carry m').1 = (entropyByte env carry m).1 ∧
      Alike (entropyByte env carry m).2 (entropyByte env carry m').2 := by
  refine ⟨?_, h.map (f := fun m => (C64WireGuard.entropyByte env carry m).2) fun _ _ _ => rfl⟩
  obtain ⟨hs', log, rfl⟩ := h.rest
  rfl

theorem entropyState (h : Alike m m') : m'.entropyState = m.entropyState := by
  obtain ⟨_, _, rfl⟩ := h.rest
  rfl

theorem entropyLoop (h : Alike m m') (env : Env σ) (n : Nat) (filled : List UInt8) (carry : Bool) :
    (entropyLoop env n filled carry m').1 = (entropyLoop env n filled carry m).1 ∧
      (entropyLoop env n filled carry m').2.1 = (entropyLoop env n filled carry m).2.1 ∧
      Alike (entropyLoop env n filled carry m).2.2 (entropyLoop env n filled carry m').2.2 := by
  induction n generalizing m m' filled carry with
  | zero => exact ⟨rfl, rfl, h⟩
  | succ n ih =>
      obtain ⟨hcarry, hbyte⟩ := h.entropyByte env carry
      rw [C64WireGuard.entropyLoop, C64WireGuard.entropyLoop]
      rw [hcarry, hbyte.entropyState]
      exact ih hbyte _ _

theorem entropyFill (h : Alike m m') (env : Env σ) (n : Nat) (carry : Bool) :
    (entropyFill env n carry m').1 = (entropyFill env n carry m).1 ∧
      (entropyFill env n carry m').2.1 = (entropyFill env n carry m).2.1 ∧
      Alike (entropyFill env n carry m).2.2 (entropyFill env n carry m').2.2 := by
  obtain ⟨hbytes, hcarry, hcells⟩ := h.entropyLoop env n [] carry
  rw [C64WireGuard.entropyFill, C64WireGuard.entropyFill]
  dsimp only
  rw [hbytes, hcarry]
  exact ⟨rfl, rfl, hcells⟩

theorem loadKeys (h : Alike m m') : Alike (loadKeys m) (loadKeys m') := by
  have hhs := h.hs.map (f := fun hs => { hs with
    hsStaticPriv := m.cfg.cfgStaticPriv
    hsStaticPub := m.cfg.cfgStaticPub
    hsRespPub := m.cfg.cfgPeerPub }) (fun _ _ _ _ => rfl) rfl rfl rfl
  obtain ⟨hs', log, rfl⟩ := h.rest
  exact h.setHs hhs

theorem loadEndpoint (h : Alike m m') (env : Env σ) :
    Alike (loadEndpoint env m) (loadEndpoint env m') := by
  have hmoved := h.map (f := fun m => { m with wgPeer := m.cfg.cfgPeerEndpoint }) fun _ _ _ => rfl
  have hcond : m'.cfg.cfgPeerEndpoint = m'.wgPeer ↔ m.cfg.cfgPeerEndpoint = m.wgPeer := by
    rw [h.cfg, h.wgPeer]
  rw [C64WireGuard.loadEndpoint, C64WireGuard.loadEndpoint]
  by_cases hc : m.cfg.cfgPeerEndpoint = m.wgPeer
  · rw [if_pos hc, if_pos (hcond.mpr hc)]
    exact hmoved
  · rw [if_neg hc, if_neg (mt hcond.mp hc)]
    exact hmoved.netUdpClose env

theorem loadPsk (h : Alike m m') : Alike (loadPsk m) (loadPsk m') := by
  have hhs := h.hs.map (f := fun hs => { hs with hsPresharedKey := m.cfg.cfgPresharedKey })
    (fun _ _ _ _ => rfl) rfl rfl rfl
  obtain ⟨hs', log, rfl⟩ := h.rest
  exact h.setHs hhs

/-- Timestamps: written to `hs_timestamp` and the timeline. -/
theorem setTimestamp (h : Alike m m') (tai : TaiMem) (ts : Bytes 12) :
    Alike { m with tai := tai, hs := { m.hs with hsTimestamp := ts } }
      { m' with tai := tai, hs := { m'.hs with hsTimestamp := ts } } := by
  have hhs := h.hs.map (f := fun hs => { hs with hsTimestamp := ts }) (fun _ _ _ _ => rfl) rfl rfl rfl
  exact (h.setHs hhs).map (f := fun m => { m with tai := tai }) fun _ _ _ => rfl

theorem tai (h : Alike m m') : m'.tai = m.tai := by
  obtain ⟨_, _, rfl⟩ := h.rest
  rfl

theorem hsTimestamp (h : Alike m m') : m'.hs.hsTimestamp = m.hs.hsTimestamp := by
  obtain ⟨cm, dh, buf, heq⟩ := h.hs.cells
  rw [heq]
  rfl

theorem configLoad (h : Alike m m') (env : Env σ) :
    (configLoad env m').1 = (configLoad env m).1 ∧
      Alike (C64WireGuard.configLoad env m).2 (C64WireGuard.configLoad env m').2 := by
  have hload := ((h.loadKeys.loadEndpoint env).loadPsk).elapse env
  rw [C64WireGuard.configLoad, C64WireGuard.configLoad]
  dsimp only
  generalize (C64WireGuard.loadPsk (C64WireGuard.loadEndpoint env (C64WireGuard.loadKeys m))).elapse
    env = a at *
  generalize (C64WireGuard.loadPsk (C64WireGuard.loadEndpoint env (C64WireGuard.loadKeys m'))).elapse
    env = a' at *
  refine ⟨by rw [hload.cfg, hload.tai], ?_⟩
  rw [syncTimeline, syncTimeline, hload.jiffy, hload.hsTimestamp]
  have hsync : tai64nSync a.jiffy a'.cfg.tai64nBaseTime a'.tai a.hs.hsTimestamp =
      tai64nSync a.jiffy a.cfg.tai64nBaseTime a.tai a.hs.hsTimestamp := by
    rw [hload.cfg, hload.tai]
  rw [hsync]
  exact hload.setTimestamp _ _

theorem sessionPrepare (h : Alike m m') (env : Env σ) :
    Alike (sessionPrepare env m) (sessionPrepare env m') := by
  obtain ⟨hcarry, hload⟩ := h.configLoad env
  rw [C64WireGuard.sessionPrepare, C64WireGuard.sessionPrepare]
  generalize C64WireGuard.configLoad env m = c at *
  generalize C64WireGuard.configLoad env m' = c' at *
  obtain ⟨carry, a⟩ := c
  obtain ⟨carry', a'⟩ := c'
  dsimp only at hcarry hload ⊢
  subst hcarry
  -- the ephemeral key
  obtain ⟨hpriv, hcarry, hcells⟩ := hload.entropyFill env 32 carry'
  generalize C64WireGuard.entropyFill env 32 carry' a = fill at *
  generalize C64WireGuard.entropyFill env 32 carry' a' = fill' at *
  obtain ⟨priv, carry, b⟩ := fill
  obtain ⟨priv', carry', b'⟩ := fill'
  dsimp only at hpriv hcarry hcells ⊢
  subst hpriv hcarry
  have hephem := hcells.setHs (hcells.hs.map (f := fun hs => { hs with hsEphemPriv := priv' })
    (fun _ _ _ _ => rfl) rfl rfl rfl)
  -- the sender index
  obtain ⟨hidx, -, hcells'⟩ := hephem.entropyFill env 4 carry'
  generalize C64WireGuard.entropyFill env 4 carry'
    { b with hs := { b.hs with hsEphemPriv := priv' } } = fill at *
  generalize C64WireGuard.entropyFill env 4 carry'
    { b' with hs := { b'.hs with hsEphemPriv := priv' } } = fill' at *
  obtain ⟨idx, carry, d⟩ := fill
  obtain ⟨idx', carry', d'⟩ := fill'
  dsimp only at hidx hcells' ⊢
  subst hidx
  have hindex := (hcells'.setHs (hcells'.hs.map (f := fun hs => { hs with hsSenderIdx := idx' })
    (fun _ _ _ _ => rfl) rfl rfl rfl)).elapse env
  -- the timestamp
  generalize ({ d with hs := { d.hs with hsSenderIdx := idx' } } : Machine σ).elapse env = x at *
  generalize ({ d' with hs := { d'.hs with hsSenderIdx := idx' } } : Machine σ).elapse env = x' at *
  have hnow : tai64nNow x'.jiffy x'.cfg.tai64nBaseTime x'.tai =
      tai64nNow x.jiffy x.cfg.tai64nBaseTime x.tai := by
    rw [hindex.jiffy, hindex.cfg, hindex.tai]
  rw [hnow]
  exact hindex.setTimestamp _ _

theorem sessionInitiate {env : Env σ} (ha : AeadAccepts env.prims) (h : Alike m m') :
    Alike (sessionInitiate env m) (sessionInitiate env m') := by
  have hprep := h.sessionPrepare env
  obtain ⟨hcells, hpkt⟩ := hprep.hs.hsCreateInitiation ha
  have hsend : Alike (sendInitiation env (C64WireGuard.sessionPrepare env m)).1
        (sendInitiation env (C64WireGuard.sessionPrepare env m')).1 ∧
      (sendInitiation env (C64WireGuard.sessionPrepare env m')).2 =
        (sendInitiation env (C64WireGuard.sessionPrepare env m)).2 := by
    rw [sendInitiation, sendInitiation]
    generalize C64WireGuard.sessionPrepare env m = a at *
    generalize C64WireGuard.sessionPrepare env m' = a' at *
    generalize hsCreateInitiation env.prims a.hs = b at *
    generalize hsCreateInitiation env.prims a'.hs = b' at *
    have hdest := (hprep.setHs hcells).map (f := sessionStageDest) fun _ _ _ => rfl
    have hsame : (sessionStageDest { a' with hs := b' }).hs.hsPacket.toList =
        (sessionStageDest { a with hs := b }).hs.hsPacket.toList := congrArg Vector.toList hpkt
    rw [hsame]
    exact hdest.netUdpSend env _
  rw [C64WireGuard.sessionInitiate, C64WireGuard.sessionInitiate]
  rw [hsend.2]
  generalize sendInitiation env (C64WireGuard.sessionPrepare env m) = r at *
  generalize sendInitiation env (C64WireGuard.sessionPrepare env m') = r' at *
  split
  · exact (hsend.1.sessionReset env).printString _
  · exact (hsend.1.setState .hsSent).timerHandshakeStart env

theorem handleType3 {env : Env σ} (ha : AeadAccepts env.prims) (h : Alike m m') :
    Alike (handleType3 env m) (handleType3 env m') := by
  have hcall : Alike (callCookieHandleType3 env m).2 (callCookieHandleType3 env m').2 ∧
      (callCookieHandleType3 env m').1 = (callCookieHandleType3 env m).1 := by
    obtain ⟨hok, hhs⟩ := h.hs.cookieHandleType3 env.prims m.cfg.cfgPeerPub m.udp
    rw [callCookieHandleType3, callCookieHandleType3]
    have hargs : cookieHandleType3 env.prims m'.cfg.cfgPeerPub m'.udp m'.hs =
        cookieHandleType3 env.prims m.cfg.cfgPeerPub m.udp m'.hs := by
      rw [h.cfg, h.udp]
    rw [hargs]
    generalize cookieHandleType3 env.prims m.cfg.cfgPeerPub m.udp m.hs = r at *
    generalize cookieHandleType3 env.prims m.cfg.cfgPeerPub m.udp m'.hs = r' at *
    refine ⟨(h.setHs hhs).log_eq ?_, hok⟩
    dsimp only
    rw [h.cfg, h.udp, hok]
  rw [C64WireGuard.handleType3, C64WireGuard.handleType3, h.wgState]
  split
  · dsimp only
    rw [hcall.2]
    split
    · exact (hcall.1.printString _).sessionInitiate ha
    · exact hcall.1
  · exact h

theorem sessionHandlePacket {env : Env σ} (ha : AeadAccepts env.prims) (h : Alike m m') :
    Alike (sessionHandlePacket env m) (sessionHandlePacket env m') := by
  have hready := h.map (f := fun m => { m with udp := { m.udp with udpRecvReady := false } })
    fun _ _ _ => rfl
  rw [C64WireGuard.sessionHandlePacket, C64WireGuard.sessionHandlePacket]
  generalize ({ m with udp := { m.udp with udpRecvReady := false } } : Machine σ) = a at *
  generalize ({ m' with udp := { m'.udp with udpRecvReady := false } } : Machine σ) = a' at *
  rw [hready.udp]
  split_ifs
  · exact hready.handleType2 env
  · exact hready.handleType3 ha
  · exact hready.handleType4 env
  · exact hready

/-! ### Timers and commands -/

theorem checkRekey (h : Alike m m') (env : Env σ) : Alike (checkRekey env m) (checkRekey env m') := by
  have hstep := h.elapse env
  have hset := (hstep.map (f := fun m => { m with timer := { m.timer with rekeyPending := true } })
    fun _ _ _ => rfl).printString .rekeyMsg
  rw [C64WireGuard.checkRekey, C64WireGuard.checkRekey, h.timer]
  generalize m.elapse env = a at *
  generalize m'.elapse env = a' at *
  split
  · exact h
  · have hcmp : timerElapsedCmp a'.jiffy a'.timer.sessionStartJiffy 0x20 0x1c =
        timerElapsedCmp a.jiffy a.timer.sessionStartJiffy 0x20 0x1c := by
      rw [hstep.jiffy, hstep.timer]
    dsimp only
    rw [hcmp]
    split
    · exact hset
    · exact hstep

theorem checkKeepalive (h : Alike m m') (env : Env σ) :
    Alike (checkKeepalive env m) (checkKeepalive env m') := by
  have hstep := h.elapse env
  have hsend := ((hstep.map (f := fun m => { m with tp := { m.tp with tpPayloadLen := 0 } })
    fun _ _ _ => rfl).transportSend env .keepalive).1
  rw [C64WireGuard.checkKeepalive, C64WireGuard.checkKeepalive]
  generalize m.elapse env = a at *
  generalize m'.elapse env = a' at *
  have hcmp : timerElapsedCmp a'.jiffy a'.timer.lastSendJiffy 0x58 0x02 =
      timerElapsedCmp a.jiffy a.timer.lastSendJiffy 0x58 0x02 := by
    rw [hstep.jiffy, hstep.timer]
  dsimp only
  rw [hcmp]
  split
  · exact (hsend.timerMarkSend env).printString _
  · exact hstep

theorem timerCheck (h : Alike m m') (env : Env σ) : Alike (timerCheck env m) (timerCheck env m') := by
  have hticks : Event.timerCheck (m'.elapse env).ticks = .timerCheck (m.elapse env).ticks := by
    rw [(h.elapse env).ticks]
  have hlog := (h.elapse env).log_eq hticks
  rw [C64WireGuard.timerCheck, C64WireGuard.timerCheck]
  generalize (m.elapse env).log (.timerCheck (m.elapse env).ticks) = a at *
  generalize (m'.elapse env).log (.timerCheck (m'.elapse env).ticks) = a' at *
  rw [hlog.wgState]
  split
  · exact hlog
  · have hstep := hlog.elapse env
    rw [timerCheckHandshake, timerCheckHandshake, hlog.timer]
    generalize a.elapse env = b at *
    generalize a'.elapse env = b' at *
    split
    · dsimp only
      rw [hstep.jiffy, hstep.timer]
      split
      · exact (hstep.sessionReset env).printString _
      · exact hstep
    · exact hlog
  · rw [timerCheckActive, timerCheckActive, hlog.jiffy, hlog.timer]
    split
    · exact (hlog.sessionReset env).printString _
    · exact (hlog.checkRekey env).checkKeepalive env

/-- A call into the adapter. -/
theorem call (h : Alike m m') (f : σ → σ × Bool) :
    Alike { m with world := (f m.world).1 } { m' with world := (f m'.world).1 } ∧
      (f m'.world).2 = (f m.world).2 :=
  ⟨h.map (f := fun m => { m with world := (f m.world).1 }) fun _ _ _ => rfl, by rw [h.world]⟩

theorem doNetInit (h : Alike m m') (env : Env σ) : Alike (doNetInit env m) (doNetInit env m') := by
  have hstart := h.printString .netInitMsg
  rw [C64WireGuard.doNetInit, C64WireGuard.doNetInit]
  generalize m.printString .netInitMsg = a at *
  generalize m'.printString .netInitMsg = a' at *
  obtain ⟨hinit, hcarry⟩ := hstart.call env.net.netInit
  generalize env.net.netInit a.world = r at *
  generalize env.net.netInit a'.world = r' at *
  dsimp only
  rw [hcarry]
  split
  · exact hinit.printString _
  · have hdhcp := hinit.printString .netDhcpMsg
    generalize ({ a with world := r.1 } : Machine σ).printString .netDhcpMsg = b at *
    generalize ({ a' with world := r'.1 } : Machine σ).printString .netDhcpMsg = b' at *
    obtain ⟨hacquire, hcarry⟩ := hdhcp.call env.net.netDhcpAcquire
    generalize env.net.netDhcpAcquire b.world = r at *
    generalize env.net.netDhcpAcquire b'.world = r' at *
    rw [hcarry]
    split
    · exact hacquire.printString _
    · have hok := hacquire.printString .netOkMsg
      generalize ({ b with world := r.1 } : Machine σ).printString .netOkMsg = c at *
      generalize ({ b' with world := r'.1 } : Machine σ).printString .netOkMsg = c' at *
      obtain ⟨hlisten, hcarry⟩ := hok.call env.net.netUdpListen
      generalize env.net.netUdpListen c.world = r at *
      generalize env.net.netUdpListen c'.world = r' at *
      rw [hcarry]
      split
      · exact hlisten.printString _
      · exact (hlisten.printString .netListenMsg).map
          (f := fun m => { m with netInitialized := true }) fun _ _ _ => rfl

theorem doSendTest (h : Alike m m') (env : Env σ) : Alike (doSendTest env m) (doSendTest env m') := by
  obtain ⟨hsend, hcarry⟩ := (h.map (f := fun m => { m with
    tp := { m.tp with tpPayloadPtr := .testPayload, tpPayloadLen := 15 } })
    fun _ _ _ => rfl).transportSend env .sendTest
  rw [C64WireGuard.doSendTest, C64WireGuard.doSendTest]
  dsimp only
  rw [hcarry]
  exact hsend.printString _

theorem doPing (h : Alike m m') (env : Env σ) : Alike (doPing env m) (doPing env m') := by
  obtain ⟨hsend, -⟩ := (h.map (f := fun m => stageIpPacket { m with ip := icmpBuildEcho m.cfg m.ip })
    fun _ _ _ => rfl).transportSend env .ping
  rw [C64WireGuard.doPing, C64WireGuard.doPing]
  by_cases hst : m.wgState = .active
  · rw [if_pos hst, if_pos (h.wgState.trans hst)]
    exact (hsend.timerMarkSend env).printString _
  · rw [if_neg hst, if_neg fun hc => hst (h.wgState.symm.trans hc)]
    exact h.printString _

theorem readInputLine (h : Alike m m') (env : Env σ) :
    Alike (readInputLine env m) (readInputLine env m') := by
  have hline := h.map (f := fun m => { m with
    world := (env.host.getinLine m.world).1
    ip := (readInputLoop env.build (env.host.getinLine m.world).2
      { m.ip with msgInputLen := 0 }).1 }) fun _ _ _ => rfl
  have hecho : (readInputLoop env.build (env.host.getinLine m'.world).2
      { m'.ip with msgInputLen := 0 }).2 = (readInputLoop env.build (env.host.getinLine m.world).2
        { m.ip with msgInputLen := 0 }).2 := by
    rw [h.world, h.ip]
  rw [C64WireGuard.readInputLine, C64WireGuard.readInputLine]
  apply elapse
  rw [hecho]
  exact hline.chroutAll _

theorem doMessageInput (h : Alike m m') (env : Env σ) :
    Alike (doMessageInput env m) (doMessageInput env m') := by
  have hline := (h.printString .msgPrompt).readInputLine env
  rw [C64WireGuard.doMessageInput, C64WireGuard.doMessageInput, h.wgState]
  generalize C64WireGuard.readInputLine env (m.printString .msgPrompt) = a at *
  generalize C64WireGuard.readInputLine env (m'.printString .msgPrompt) = a' at *
  obtain ⟨hsend, hcarry⟩ := (hline.map (f := fun m => stageIpPacket { m with
    ip := udpTunnelBuild env.build (.ipPacketBuf ipUdpHdrLen) m.ip.msgInputLen m.cfg m.ip }) fun _ _ _ => rfl).transportSend env .message
  split
  · dsimp only
    rw [hcarry]
    split
    · rw [msgSendFail, msgSendFail, hsend.world]
      exact (hsend.printString _).chroutAll _
    · exact (hsend.timerMarkSend env).printString _
  · exact h.printString _

theorem doLoadConfig (h : Alike m m') (env : Env σ) :
    Alike (doLoadConfig env m) (doLoadConfig env m') := by
  have hload := (h.printString .cfgLoadingMsg).map (f := fun m => { m with
    world := (env.host.readConfig m.world).1
    cfg := (configReadFile (env.host.readConfig m.world).2 m.cfg).2 }) fun _ _ _ => rfl
  have hcarry : (configReadFile (env.host.readConfig m'.world).2 m'.cfg).1 =
      (configReadFile (env.host.readConfig m.world).2 m.cfg).1 := by
    rw [h.world, h.cfg]
  rw [C64WireGuard.doLoadConfig, C64WireGuard.doLoadConfig]
  exact hload.log_eq
    (congrArg (fun c : Bool => Event.printString (if c then .cfgErrMsg else .cfgOkMsg)) hcarry)

theorem runCommand {env : Env σ} (ha : AeadAccepts env.prims) (h : Alike m m') (c : Command) :
    Alike (runCommand env m c) (runCommand env m' c) := by
  cases c with
  | quit => exact h.netUdpClose env
  | netInit => exact h.doNetInit env
  | handshake =>
      exact ((h.printString .hsStartMsg).map (f := entropyInit env) fun _ _ _ => rfl).sessionInitiate ha
  | sendTest => exact h.doSendTest env
  | ping => exact h.doPing env
  | message => exact h.doMessageInput env
  | loadConfig => exact h.doLoadConfig env

theorem getCommand (h : Alike m m') (env : Env σ) :
    (getCommand env m').1 = (getCommand env m).1 ∧
      Alike (getCommand env m).2 (getCommand env m').2 := by
  refine ⟨?_, h.map (f := fun m => (C64WireGuard.getCommand env m).2) fun _ _ _ => rfl⟩
  rw [C64WireGuard.getCommand, C64WireGuard.getCommand, h.world]

end Alike

/-! ## Runs -/

/-- The rest of an iteration after its poll, and `n` more. -/
def resume (env : Env σ) (n : Nat) (m : Machine σ) : Machine σ :=
  let r := getCommand env (timerCheck env m)
  match r.1 with
  | none => run env n r.2
  | some c => if c = .quit then runCommand env r.2 c else run env n (runCommand env r.2 c)

theorem run_succ (env : Env σ) (n : Nat) (m : Machine σ) :
    run env (n + 1) m = resume env n (pollAndHandle env m) := by
  rw [run, mainLoop, resume]
  generalize getCommand env (timerCheck env (pollAndHandle env m)) = r
  obtain ⟨c, m'⟩ := r
  cases c with
  | none => rfl
  | some c => cases c <;> rfl

theorem Alike.pollAndHandle {env : Env σ} (ha : AeadAccepts env.prims) {m m' : Machine σ}
    (h : Alike m m') : Alike (pollAndHandle env m) (pollAndHandle env m') := by
  have hstep := h.elapse env
  have hpoll := hstep.map (f := fun m => { m with
    world := (env.net.netPoll m.netUdpDest m.udp m.world).1
    udp := (env.net.netPoll m.netUdpDest m.udp m.world).2 }) fun _ _ _ => rfl
  rw [C64WireGuard.pollAndHandle, C64WireGuard.pollAndHandle]
  generalize m.elapse env = a at *
  generalize m'.elapse env = a' at *
  have hready : (env.net.netPoll a'.netUdpDest a'.udp a'.world).2.udpRecvReady =
      (env.net.netPoll a.netUdpDest a.udp a.world).2.udpRecvReady :=
    congrArg UdpRecv.udpRecvReady hpoll.udp
  by_cases hinit : a.netInitialized = true
  · rw [if_pos hinit, if_pos (hstep.netInitialized.trans hinit)]
    dsimp only
    rw [hready]
    split
    · exact hpoll.sessionHandlePacket ha
    · exact hpoll
  · rw [if_neg hinit, if_neg fun hc => hinit (hstep.netInitialized.symm.trans hc)]
    exact hstep

theorem Alike.resume_of {env : Env σ} (ha : AeadAccepts env.prims) {n : Nat}
    (hrun : ∀ {m m' : Machine σ}, Alike m m' → Alike (run env n m) (run env n m'))
    {m m' : Machine σ} (h : Alike m m') : Alike (resume env n m) (resume env n m') := by
  obtain ⟨hkey, hget⟩ := (h.timerCheck env).getCommand env
  rw [C64WireGuard.resume, C64WireGuard.resume]
  rw [hkey]
  split
  · exact hrun hget
  · rename_i c _
    have hcmd := hget.runCommand ha c
    split
    · exact hcmd
    · exact hrun hcmd

/-- **Machines that are alike go on alike.** -/
theorem Alike.run {env : Env σ} (ha : AeadAccepts env.prims) (n : Nat) {m m' : Machine σ}
    (h : Alike m m') : Alike (run env n m) (run env n m') := by
  induction n generalizing m m' with
  | zero => exact h
  | succ n ih =>
      rw [run_succ, run_succ]
      exact (h.pollAndHandle ha).resume_of ha ih

end C64WireGuard
