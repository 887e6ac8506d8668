import C64WireGuard.Handshakes

/-!
# The program's sessions are runs of the tunnel

`Tunnel` calls the routines of `transport.s` one by one. Here the whole program does: from the moment
a session is opened until it opens the next, every iteration of the main loop, whatever key is pressed,
whatever packet comes and whatever timer fires, is a sequence of the tunnel's steps (`mainLoop_drives`),
and so is every run of the program beside the responder (`Joint.Refines.run`).

**Theorem (`sessions_tunnel`).** What holds of the tunnel holds of the program, in every session that a
handshake with the responder opens.
-/

namespace C64WireGuard

open Bytes ReplayWindow

variable {σ : Type} {L : NoiseLib} {p : Primitives} {view : L.Connection → ConnectionView}
  {keyUp keyDown : Bytes 32}

/-! ## What the tunnel sees of the program -/

/-- The Type 4 packet that a call hands to the adapter. -/
def Event.transport : Event → Option (List UInt8)
  | .netUdpSend _ pkt _ => if pkt.head? = some 4 then some pkt else none
  | _ => none

/-- The Type 4 packets handed to the adapter, newest first. -/
def transports (log : List Event) : List (List UInt8) := log.filterMap Event.transport

theorem transports_chrout (bs : List UInt8) (log : List Event) :
    transports ((bs.map Event.chrout).reverse ++ log) = transports log := by
  have hnone : (bs.map Event.chrout).reverse.filterMap Event.transport = [] := by
    refine List.filterMap_eq_nil_iff.mpr fun e he => ?_
    obtain ⟨b, -, rfl⟩ := List.mem_map.mp (List.mem_reverse.mp he)
    rfl
  rw [transports, List.filterMap_append, hnone, List.nil_append, transports]

theorem transports_send {dest : Endpoint} {pkt : List UInt8} {carry : Bool} {log : List Event}
    (h : pkt.head? = some 4) :
    transports (.netUdpSend dest pkt carry :: log) = pkt :: transports log :=
  List.filterMap_cons_some (if_pos h)

/-- The keys of the session. -/
def HsMem.transportKeys (hs : HsMem) : Bytes 32 × Bytes 32 := (hs.hsTransportSend, hs.hsTransportRecv)

/-- From `m` to `m'` nothing happened that the tunnel sees. -/
structure Still (m m' : Machine σ) : Prop where
  session : m'.tp.session = m.tp.session
  keys : m'.hs.transportKeys = m.hs.transportKeys
  log : transports m'.trace = transports m.trace

namespace Still

variable {m m' m'' : Machine σ}

theorem refl (m : Machine σ) : Still m m := ⟨rfl, rfl, rfl⟩

theorem trans (h : Still m m') (h' : Still m' m'') : Still m m'' :=
  ⟨h'.session.trans h.session, h'.keys.trans h.keys, h'.log.trans h.log⟩

/-- Writes elsewhere. -/
theorem elsewhere (h : Still m m') {m'' : Machine σ} (htp : m''.tp.session = m'.tp.session)
    (hkeys : m''.hs.transportKeys = m'.hs.transportKeys) (hlog : m''.trace = m'.trace) :
    Still m m'' :=
  h.trans ⟨htp, hkeys, by rw [hlog]⟩

theorem log_event (h : Still m m') {e : Event} (he : e.transport = none) : Still m (m'.log e) :=
  h.trans ⟨rfl, rfl, List.filterMap_cons_none he⟩

theorem printString (h : Still m m') (s : Str) : Still m (m'.printString s) :=
  h.log_event rfl

theorem chroutAll (h : Still m m') (bs : List UInt8) : Still m (m'.chroutAll bs) :=
  h.trans ⟨rfl, rfl, transports_chrout bs m'.trace⟩

theorem elapse (h : Still m m') (env : Env σ) : Still m (m'.elapse env) :=
  h.elsewhere rfl rfl rfl

theorem netUdpClose (h : Still m m') (env : Env σ) : Still m (m'.netUdpClose env) := by
  have hworld : Still m { m' with world := env.net.netUdpClose m'.world } := h.elsewhere rfl rfl rfl
  exact hworld.log_event rfl

/-- A packet of another type. -/
theorem netUdpSend (h : Still m m') (env : Env σ) {pkt : List UInt8} (hpkt : pkt.head? ≠ some 4) :
    Still m (m'.netUdpSend env pkt).1 := by
  have hworld : Still m { m' with world := (env.net.netUdpSend m'.netUdpDest pkt m'.world).1 } :=
    h.elsewhere rfl rfl rfl
  exact hworld.log_event (if_neg hpkt)

theorem setState (h : Still m m') (s : WgState) : Still m (m'.setState s) := by
  have hstate : Still m { m' with wgState := s } := h.elsewhere rfl rfl rfl
  exact hstate.log_event rfl

theorem sessionReset (h : Still m m') (env : Env σ) : Still m (sessionReset env m') := by
  rw [C64WireGuard.sessionReset]
  apply netUdpClose
  exact (h.setState .idle).elsewhere rfl rfl rfl

theorem timerMarkSend (h : Still m m') (env : Env σ) : Still m (timerMarkSend env m') :=
  (h.elapse env).elsewhere rfl rfl rfl

theorem endpointUpdate (h : Still m m') (env : Env σ) : Still m (endpointUpdate env m') := by
  rw [C64WireGuard.endpointUpdate]
  split
  · exact h
  · refine Still.netUdpClose ?_ env
    exact h.elsewhere rfl rfl rfl

theorem routePayload (h : Still m m') (env : Env σ) : Still m (routePayload env m') := by
  have hshow : ∀ {m' : Machine σ}, Still m m' → Still m (displayPayload m') := by
    intro m' h'
    exact (h'.printString _).chroutAll _
  rw [C64WireGuard.routePayload, handleIcmp, handleUdp]
  split_ifs
  · exact h.printString _
  · exact hshow h
  · have hip : Still m { m' with ip := (udpTunnelParse env.build m'.tp m'.ip).2 } :=
      h.elsewhere rfl rfl rfl
    exact (hip.printString _).chroutAll _
  · exact hshow (h.elsewhere rfl rfl rfl)
  · exact hshow h

/-- A response that is refused. -/
theorem handleType2 (h : Still m m') (env : Env σ)
    (hno : ¬ (m'.wgState = .hsSent ∧ (callHsProcessResponse env m').1 = true)) :
    Still m (handleType2 env m') := by
  rw [C64WireGuard.handleType2]
  by_cases hst : m'.wgState = .hsSent
  · have hbad : (callHsProcessResponse env m').1 = false :=
      Bool.eq_false_of_not_eq_true fun hok => hno ⟨hst, hok⟩
    have hcall : Still m (callHsProcessResponse env m').2 := by
      obtain ⟨cm, dh, s, -, ⟨-, heq⟩ | ⟨-, heq⟩⟩ := hsProcessResponse_spec env.prims
        { m'.hs with hsRespPacket := slice m'.udp.udpRecvBuf 0 92 }
      · rw [callHsProcessResponse, heq] at hbad
        cases hbad
      · rw [callHsProcessResponse, heq]
        refine Still.log_event ?_ rfl
        exact h.elsewhere rfl rfl rfl
    rw [if_pos hst]
    generalize callHsProcessResponse env m' = r at *
    dsimp only
    rw [hbad]
    exact (hcall.sessionReset env).printString _
  · rw [if_neg hst]
    exact h

/-- The packet of an initiation is not of Type 4. -/
theorem sendInitiation (h : Still m m') (env : Env σ) : Still m (sendInitiation env m').1 := by
  have hframe := hsCreateInitiation_frame env.prims m'.hs
  simp only [HsMem.frame, Prod.mk.injEq] at hframe
  have hhead : (hsCreateInitiation env.prims m'.hs).hsPacket.toList.head? = some 1 := by
    rw [head?_toList _ (by decide), hframe.2.2]
  have hbuilt : Still m (sessionStageDest { m' with hs := hsCreateInitiation env.prims m'.hs }) :=
    h.elsewhere rfl (Prod.ext hframe.1 hframe.2.1) rfl
  exact hbuilt.netUdpSend env (by
    change (hsCreateInitiation env.prims m'.hs).hsPacket.toList.head? ≠ some 4
    rw [hhead]
    decide)

theorem sessionInitiate (h : Still m m') (env : Env σ) : Still m (sessionInitiate env m') := by
  obtain ⟨priv, idx, ts, tai, e, w, t, hprep⟩ := sessionPrepare_spec env m'
  have hclosed : transports (closedFor m' ++ m'.trace) = transports m'.trace := by
    rw [closedFor]
    split <;> rfl
  have hprepared : Still m (sessionPrepare env m') := by
    rw [hprep]
    exact h.trans ⟨rfl, rfl, hclosed⟩
  have hsent := hprepared.sendInitiation env
  rw [C64WireGuard.sessionInitiate]
  generalize C64WireGuard.sendInitiation env (sessionPrepare env m') = s at *
  split
  · exact (hsent.sessionReset env).printString _
  · have hlog := ((hsent.setState .hsSent).elapse env).log_event
      (e := .timerSessionStart ((s.1.setState .hsSent).elapse env).ticks) rfl
    exact hlog.elsewhere rfl rfl rfl

/-- A cookie reply, whatever it is. -/
theorem handleType3 (h : Still m m') (env : Env σ) : Still m (handleType3 env m') := by
  have hcall : Still m (callCookieHandleType3 env m').2 := by
    obtain ⟨cm, -, heq⟩ := cookieHandleType3_spec env.prims m'.cfg.cfgPeerPub m'.udp m'.hs
    rw [callCookieHandleType3, heq]
    refine Still.log_event ?_ rfl
    split
    · exact h.elsewhere rfl rfl rfl
    · exact h.elsewhere rfl rfl rfl
  rw [C64WireGuard.handleType3]
  generalize callCookieHandleType3 env m' = r at *
  dsimp only
  split_ifs
  · exact (hcall.printString _).sessionInitiate env
  · exact hcall
  · exact h

theorem doNetInit (env : Env σ) (m : Machine σ) : Still m (doNetInit env m) := by
  rw [C64WireGuard.doNetInit]
  dsimp only
  split_ifs <;> exact ⟨rfl, rfl, rfl⟩

theorem readInputLine (h : Still m m') (env : Env σ) : Still m (readInputLine env m') := by
  rw [C64WireGuard.readInputLine]
  apply elapse
  apply chroutAll
  exact h.elsewhere rfl rfl rfl

end Still

/-! ## One iteration -/

/-- The program after the poll. -/
def polled (env : Env σ) (m : Machine σ) : Machine σ :=
  let m := m.elapse env
  let r := env.net.netPoll m.netUdpDest m.udp m.world
  { m with world := r.1, udp := r.2 }

/-- The iteration takes a packet from the adapter. -/
def Receives (env : Env σ) (m : Machine σ) : Prop :=
  m.netInitialized = true ∧ (polled env m).udp.udpRecvReady = true

/-- The packet opens a session. -/
def Opens (env : Env σ) (m : Machine σ) : Prop :=
  m.wgState = .hsSent ∧ byte m.udp.udpRecvBuf 0 = 2 ∧ (callHsProcessResponse env m).1 = true

/-- An iteration after its packet. -/
def finish (env : Env σ) (m : Machine σ) : Machine σ :=
  let r := getCommand env (timerCheck env m)
  match r.1 with
  | none => r.2
  | some c => runCommand env r.2 c

theorem mainLoop_eq_finish (env : Env σ) (m : Machine σ) :
    (mainLoop env m).1 = finish env (pollAndHandle env m) := by
  rw [mainLoop, finish]
  generalize getCommand env (timerCheck env (pollAndHandle env m)) = r
  rcases r with ⟨_ | c, m'⟩
  · rfl
  · rfl

theorem pollAndHandle_receives {env : Env σ} {m : Machine σ} (h : Receives env m) :
    pollAndHandle env m = sessionHandlePacket env (polled env m) := by
  rw [pollAndHandle]
  dsimp only
  rw [if_pos (show (m.elapse env).netInitialized = true from h.1)]
  exact if_pos h.2

/-- Without a packet. -/
theorem Still.pollAndHandle {env : Env σ} {m : Machine σ} (h : ¬ Receives env m) :
    Still m (pollAndHandle env m) := by
  rw [C64WireGuard.pollAndHandle]
  dsimp only
  split_ifs with hinit hready
  · exact absurd ⟨hinit, hready⟩ h
  · exact ⟨rfl, rfl, rfl⟩
  · exact ⟨rfl, rfl, rfl⟩

/-! ## Steps of the C64 -/

/-- The responder's side of a tunnel. -/
def Tunnel.far (T : Tunnel L) : Responder L × List Message × List (List UInt8) :=
  (T.responder, T.down, T.served)

/-- The program is at the C64's end of the tunnel, which has been open since the log was `base`. -/
structure Matches (keyUp keyDown : Bytes 32) (base : List (List UInt8)) (m : Machine σ)
    (T : Tunnel L) : Prop where
  keys : m.hs.transportKeys = (keyUp, keyDown)
  session : m.tp.session = T.tp.session
  log : transports m.trace = (T.up.map Message.packet).reverse ++ base

/-- Steps of the C64 lead from `T` to a tunnel that the program is at the end of. -/
def Reaches (p : Primitives) (keyUp keyDown : Bytes 32) (base : List (List UInt8)) (T : Tunnel L)
    (m : Machine σ) : Prop :=
  ∃ T' : Tunnel L, T'.far = T.far ∧ Matches keyUp keyDown base m T' ∧
    Relation.ReflTransGen (Tunnel.Step p keyUp keyDown) T T'

/-- And the last packet of that tunnel carries `plain`. -/
def Seals (p : Primitives) (keyUp keyDown : Bytes 32) (base : List (List UInt8)) (T : Tunnel L)
    (plain : List UInt8) (m : Machine σ) : Prop :=
  ∃ (T' : Tunnel L) (msg : Message), T'.far = T.far ∧ Matches keyUp keyDown base m T' ∧
    Relation.ReflTransGen (Tunnel.Step p keyUp keyDown) T T' ∧
    T'.up.getLast? = some msg ∧ msg.plain = plain

theorem Seals.reaches {base : List (List UInt8)} {T : Tunnel L} {plain : List UInt8} {m : Machine σ}
    (h : Seals p keyUp keyDown base T plain m) : Reaches p keyUp keyDown base T m := by
  obtain ⟨T', -, hfar, hmatch, hsteps, -, -⟩ := h
  exact ⟨T', hfar, hmatch, hsteps⟩

theorem Seals.still {base : List (List UInt8)} {T : Tunnel L} {plain : List UInt8}
    {m m' : Machine σ} (h : Seals p keyUp keyDown base T plain m) (hs : Still m m') :
    Seals p keyUp keyDown base T plain m' := by
  obtain ⟨T', msg, hfar, hmatch, hsteps, hlast, hplain⟩ := h
  exact ⟨T', msg, hfar, ⟨hs.keys.trans hmatch.keys, hs.session.trans hmatch.session,
    hs.log.trans hmatch.log⟩, hsteps, hlast, hplain⟩

namespace Reaches

variable {env : Env σ} {base : List (List UInt8)} {T : Tunnel L} {m m' : Machine σ}

theorem still (h : Reaches p keyUp keyDown base T m) (hs : Still m m') :
    Reaches p keyUp keyDown base T m' := by
  obtain ⟨T', hfar, hmatch, hsteps⟩ := h
  exact ⟨T', hfar, ⟨hs.keys.trans hmatch.keys, hs.session.trans hmatch.session,
    hs.log.trans hmatch.log⟩, hsteps⟩

/-- Whatever else the transport cells hold. -/
theorem staged (h : Reaches p keyUp keyDown base T m) (crypto : CryptoMem) (tp : TpMem)
    (same : tp.session = m.tp.session) : ∃ T' : Tunnel L, T'.far = T.far ∧
      Matches keyUp keyDown base m T' ∧ Relation.ReflTransGen (Tunnel.Step p keyUp keyDown) T T' ∧
      T'.crypto = crypto ∧ T'.tp = tp := by
  obtain ⟨T', hfar, hmatch, hsteps⟩ := h
  refine ⟨{ T' with crypto := crypto, tp := tp }, hfar, ⟨hmatch.keys, same.symm, hmatch.log⟩,
    hsteps.tail (.between T' crypto (same.trans hmatch.session)), rfl, rfl⟩

/-- `transport_send` refuses, or seals the payload. -/
theorem transportSend_cases (h : Reaches env.prims keyUp keyDown base T m) (sender : Sender) :
    (Reaches env.prims keyUp keyDown base T (transportSend env sender m).1 ∧
      (env.build.wgMtu < m.tp.tpPayloadLen ∨ rejectCounterB7 ≤ byte m.tp.tpSendCounter 7 ∨
        ¬ AeadAcceptsTransport env.prims)) ∨
    Seals env.prims keyUp keyDown base T (slice (payloadBytes m) 0 m.tp.tpPayloadLen).toList
      (transportSend env sender m).1 := by
  rw [C64WireGuard.transportSend]
  split
  · rename_i hmtu
    exact Or.inl ⟨h, Or.inl hmtu⟩
  rename_i hmtu
  let pt : Plaintext := ⟨payloadBytes m, m.tp.tpPayloadLen, payload_fits env hmtu⟩
  obtain ⟨T', hfar, hmatch, hsteps, hcrypto, htp⟩ := h.staged m.hs.toCryptoMem m.tp rfl
  have hstep := hsteps.tail (.c64Encrypt T' pt)
  have hsend : m.hs.hsTransportSend = keyUp := congrArg Prod.fst hmatch.keys
  rw [callTransportEncrypt, hsend]
  rcases transportEncrypt_cases env.prims keyUp (payloadBytes m) m.hs.toCryptoMem m.tp with
    ⟨c', t', rekey, heq, -, hwhy⟩ | ⟨ct, tag, c', rekey, heq, -⟩
  · have hencrypt : T'.c64Encrypt env.prims keyUp pt = { T' with crypto := c', tp := t' } := by
      simp only [Tunnel.c64Encrypt, hcrypto, htp, pt, heq, if_true]
    rw [hencrypt] at hstep
    rw [heq]
    refine Or.inl ⟨⟨{ T' with crypto := c', tp := t' }, hfar, ⟨hmatch.keys, rfl, hmatch.log⟩, hstep⟩,
      Or.inr (hwhy.imp_right fun hnone haccepts => ?_)⟩
    have hfits := payload_fits env hmtu
    have hsome := haccepts keyUp (transportBuildNonce m.tp.tpSendCounter)
      (slice (encryptStage (payloadBytes m) m.tp) 16 m.tp.tpPayloadLen) (by
        unfold udpRecvBufSize at hfits
        omega)
    rw [hnone] at hsome
    cases hsome
  · have hhead : (tpPacketBytes (encryptedMem (payloadBytes m) m.tp ct tag)).head? = some 4 :=
      head?_tpPacketBytes (payload_lt env hmtu) ct tag
    generalize encryptedMem (payloadBytes m) m.tp ct tag = t' at *
    have hencrypt : T'.c64Encrypt env.prims keyUp pt =
        { T' with crypto := c', tp := t', up := T'.up ++ [⟨pt.bytes, tpPacketBytes t'⟩] } := by
      simp [Tunnel.c64Encrypt, hcrypto, htp, pt, heq]
    rw [hencrypt] at hstep
    rw [heq]
    refine Or.inr ⟨{ T' with crypto := c', tp := t', up := T'.up ++ [⟨pt.bytes, tpPacketBytes t'⟩] },
      _, hfar, ⟨hmatch.keys, rfl, ?_⟩, hstep, List.getLast?_concat, rfl⟩
    rw [List.map_append, List.reverse_append]
    exact (transports_send hhead).trans (congrArg (tpPacketBytes t' :: ·) hmatch.log)

theorem transportSend (h : Reaches env.prims keyUp keyDown base T m) (sender : Sender) :
    Reaches env.prims keyUp keyDown base T (transportSend env sender m).1 :=
  (h.transportSend_cases sender).elim And.left Seals.reaches

/-- A packet to the tunnel. -/
theorem handleType4 (h : Reaches env.prims keyUp keyDown base T m)
    (unforged : Unforged env.prims keyDown (T.down.map Message.packet) (le (packetCounter m.udp))
      m.udp.bytes) : Reaches env.prims keyUp keyDown base T (handleType4 env m) := by
  let tp := { m.tp with
    tpPacket := copy16 m.tp.tpPacket 0 m.udp.udpRecvBuf 0 m.udp.udpRecvLen
    tpPacketLen := m.udp.udpRecvLen }
  obtain ⟨T', hfar, hmatch, hsteps, hcrypto, htp⟩ := h.staged m.hs.toCryptoMem tp rfl
  have hdown : T'.down = T.down := congrArg (fun far => far.2.1) hfar
  rw [← hdown] at unforged
  have hstep := hsteps.tail (.c64Decrypt T' unforged)
  have hrecv : m.hs.hsTransportRecv = keyDown := congrArg Prod.snd hmatch.keys
  have hcall : Reaches env.prims keyUp keyDown base T (callTransportDecrypt env m).2 := by
    refine ⟨T'.c64Decrypt env.prims keyDown m.udp, hfar, ⟨hmatch.keys, ?_, hmatch.log⟩, hstep⟩
    rw [callTransportDecrypt, hrecv, Tunnel.c64Decrypt, hcrypto, htp]
    rfl
  rw [C64WireGuard.handleType4]
  generalize callTransportDecrypt env m = r at *
  dsimp only
  split_ifs
  · exact hcall.still (((Still.refl r.2).endpointUpdate env).routePayload env)
  · exact hcall.still ((Still.refl r.2).printString _)
  · exact h

theorem timerCheck (h : Reaches env.prims keyUp keyDown base T m) :
    Reaches env.prims keyUp keyDown base T (timerCheck env m) := by
  have hstart := h.still (((Still.refl m).elapse env).log_event
    (e := .timerCheck (m.elapse env).ticks) rfl)
  rw [C64WireGuard.timerCheck]
  generalize (m.elapse env).log (.timerCheck (m.elapse env).ticks) = r at *
  have hr := Still.refl r
  split
  · exact hstart
  · rw [timerCheckHandshake]
    dsimp only
    split_ifs
    · exact hstart.still (((hr.elapse env).sessionReset env).printString _)
    · exact hstart.still (hr.elapse env)
    · exact hstart
  · have hrekey : Still r (checkRekey env r) := by
      rw [checkRekey]
      dsimp only
      split_ifs
      · exact hr
      · apply Still.printString
        exact (hr.elapse env).elsewhere rfl rfl rfl
      · exact hr.elapse env
    rw [timerCheckActive]
    split
    · exact hstart.still ((hr.sessionReset env).printString _)
    · replace hstart := hstart.still hrekey
      generalize checkRekey env r = r' at *
      have hlapse := (Still.refl r').elapse env
      rw [checkKeepalive]
      dsimp only
      split
      · have hempty : Still r' { r'.elapse env with
            tp := { (r'.elapse env).tp with tpPayloadLen := 0 } } := hlapse.elsewhere rfl rfl rfl
        have hsent := (hstart.still hempty).transportSend .keepalive
        generalize C64WireGuard.transportSend env .keepalive _ = s at *
        exact hsent.still (((Still.refl s.1).timerMarkSend env).printString _)
      · exact hstart.still hlapse

theorem doSendTest (h : Reaches env.prims keyUp keyDown base T m) :
    Reaches env.prims keyUp keyDown base T (doSendTest env m) := by
  have htest : Still m { m with tp := { m.tp with tpPayloadPtr := .testPayload, tpPayloadLen := 15 } } :=
    (Still.refl m).elsewhere rfl rfl rfl
  have hsent := (h.still htest).transportSend .sendTest
  rw [C64WireGuard.doSendTest]
  generalize C64WireGuard.transportSend env .sendTest _ = s at *
  exact hsent.still ((Still.refl s.1).printString _)

theorem doPing (h : Reaches env.prims keyUp keyDown base T m) :
    Reaches env.prims keyUp keyDown base T (doPing env m) := by
  rw [C64WireGuard.doPing]
  split
  · have hstage : Still m (stageIpPacket { m with ip := icmpBuildEcho m.cfg m.ip }) :=
      (Still.refl m).elsewhere rfl rfl rfl
    have hsent := (h.still hstage).transportSend .ping
    dsimp only
    generalize C64WireGuard.transportSend env .ping _ = s at *
    exact hsent.still (((Still.refl s.1).timerMarkSend env).printString _)
  · exact h.still ((Still.refl m).printString _)

theorem doMessageInput (h : Reaches env.prims keyUp keyDown base T m) :
    Reaches env.prims keyUp keyDown base T (doMessageInput env m) := by
  rw [C64WireGuard.doMessageInput]
  split
  · have hline := h.still (((Still.refl m).printString .msgPrompt).readInputLine env)
    generalize readInputLine env (m.printString .msgPrompt) = r at *
    have hstage : Still r (stageIpPacket { r with
        ip := udpTunnelBuild env.build (.ipPacketBuf ipUdpHdrLen) r.ip.msgInputLen r.cfg r.ip }) :=
      (Still.refl r).elsewhere rfl rfl rfl
    have hsent := (hline.still hstage).transportSend .message
    dsimp only
    generalize C64WireGuard.transportSend env .message _ = s at *
    split
    · exact hsent.still (((Still.refl s.1).printString _).chroutAll _)
    · exact hsent.still (((Still.refl s.1).timerMarkSend env).printString _)
  · exact h.still ((Still.refl m).printString _)

theorem runCommand (h : Reaches env.prims keyUp keyDown base T m) (c : Command) :
    Reaches env.prims keyUp keyDown base T (runCommand env m c) := by
  have hm := Still.refl m
  cases c with
  | quit => exact h.still (hm.netUdpClose env)
  | netInit => exact h.still (Still.doNetInit env m)
  | handshake =>
    have hseed : Still m (entropyInit env (m.printString .hsStartMsg)) :=
      (hm.printString .hsStartMsg).elsewhere rfl rfl rfl
    exact h.still (hseed.sessionInitiate env)
  | sendTest => exact h.doSendTest
  | ping => exact h.doPing
  | message => exact h.doMessageInput
  | loadConfig =>
    have hfile : Still m { m.printString .cfgLoadingMsg with
        world := (env.host.readConfig m.world).1
        cfg := (configReadFile (env.host.readConfig m.world).2 m.cfg).2 } :=
      (hm.printString .cfgLoadingMsg).elsewhere rfl rfl rfl
    exact h.still (hfile.printString _)

/-- A packet that opens no session. -/
theorem sessionHandlePacket (h : Reaches env.prims keyUp keyDown base T m) (hno : ¬ Opens env m)
    (unforged : Unforged env.prims keyDown (T.down.map Message.packet) (le (packetCounter m.udp))
      m.udp.bytes) : Reaches env.prims keyUp keyDown base T (sessionHandlePacket env m) := by
  have hclear : Still m { m with udp := { m.udp with udpRecvReady := false } } :=
    (Still.refl m).elsewhere rfl rfl rfl
  rw [C64WireGuard.sessionHandlePacket]
  dsimp only
  split_ifs with h2 h3 h4
  · exact h.still (hclear.handleType2 env fun hopens => hno ⟨hopens.1, h2, hopens.2⟩)
  · exact h.still (hclear.handleType3 env)
  · exact (h.still hclear).handleType4 unforged
  · exact h.still hclear

theorem finish (h : Reaches env.prims keyUp keyDown base T m) :
    Reaches env.prims keyUp keyDown base T (finish env m) := by
  have hchecked := h.timerCheck
  rw [C64WireGuard.finish]
  generalize C64WireGuard.timerCheck env m = m' at *
  have hkey : Still m' (getCommand env m').2 := ⟨rfl, rfl, rfl⟩
  have hlooked := hchecked.still hkey
  generalize getCommand env m' = r at *
  split
  · exact hlooked
  · exact hlooked.runCommand _

end Reaches

/-- **One iteration of the main loop** that opens no session, as steps of the tunnel. -/
theorem mainLoop_drives {env : Env σ} {base : List (List UInt8)} {T : Tunnel L} {m : Machine σ}
    (h : Reaches env.prims keyUp keyDown base T m)
    (hno : ¬ (Receives env m ∧ Opens env (polled env m)))
    (unforged : Receives env m → Unforged env.prims keyDown (T.down.map Message.packet)
      (le (packetCounter (polled env m).udp)) (polled env m).udp.bytes) :
    Reaches env.prims keyUp keyDown base T (mainLoop env m).1 := by
  rw [mainLoop_eq_finish]
  apply Reaches.finish
  by_cases hr : Receives env m
  · have hpolled : Still m (polled env m) := ⟨rfl, rfl, rfl⟩
    rw [pollAndHandle_receives hr]
    exact (h.still hpolled).sessionHandlePacket (fun ho => hno ⟨hr, ho⟩) (unforged hr)
  · exact h.still (Still.pollAndHandle hr)

/-! ## Both ends -/

/-- The program and the responder in a session, with what the responder has sealed and what it has
read, oldest first. -/
structure Joint (σ : Type) (L : NoiseLib) where
  c64 : Machine σ
  responder : Responder L
  down : List Message
  served : List (List UInt8)

namespace Joint

/-- The packets of the session that the program has handed to the adapter, oldest first. -/
def up (base : List (List UInt8)) (S : Joint σ L) : List (List UInt8) :=
  (transports S.c64.trace).reverse.drop base.length

/-- `encrypt_transport`. -/
def responderEncrypt (plain : List UInt8) (S : Joint σ L) : Joint σ L :=
  match S.responder.encryptTransport plain with
  | (r, .ok packet) => { S with responder := r, down := S.down ++ [⟨plain, packet⟩] }
  | (r, .error _) => { S with responder := r }

/-- `decrypt_transport`. -/
def responderDecrypt (packet : List UInt8) (S : Joint σ L) : Joint σ L :=
  match S.responder.decryptTransport packet with
  | (r, .ok plain) => { S with responder := r, served := S.served ++ [plain] }
  | (r, .error _) => { S with responder := r }

/-- **One step**: an iteration of the main loop that opens no other session, or a call of the
responder. -/
inductive Step (env : Env σ) (keyUp keyDown : Bytes 32) (base : List (List UInt8)) :
    Joint σ L → Joint σ L → Prop
  | c64 (S : Joint σ L) (same : ¬ (Receives env S.c64 ∧ Opens env (polled env S.c64)))
      (unforged : Receives env S.c64 → Unforged env.prims keyDown (S.down.map Message.packet)
        (le (packetCounter (polled env S.c64).udp)) (polled env S.c64).udp.bytes) :
      Step env keyUp keyDown base S { S with c64 := (mainLoop env S.c64).1 }
  | responderEncrypt (S : Joint σ L) {plain : List UInt8} (short : plain.length ≤ 1468)
      (room : S.down.length < 2 ^ 64 - 1) :
      Step env keyUp keyDown base S (S.responderEncrypt plain)
  | responderDecrypt (S : Joint σ L) {packet : List UInt8} (short : packet.length < 2 ^ 16)
      (unforged : Unforged env.prims keyUp (S.up base) S.served.length packet) :
      Step env keyUp keyDown base S (S.responderDecrypt packet)

/-- The program and the responder are at the two ends of the tunnel. -/
structure Refines (keyUp keyDown : Bytes 32) (base : List (List UInt8)) (S : Joint σ L)
    (T : Tunnel L) : Prop where
  c64 : Matches keyUp keyDown base S.c64 T
  far : T.far = (S.responder, S.down, S.served)

variable {env : Env σ} {base : List (List UInt8)} {S S' : Joint σ L} {T : Tunnel L}

/-- What the program has sent is what the tunnel has sealed. -/
theorem Refines.up (h : Refines keyUp keyDown base S T) : S.up base = T.up.map Message.packet := by
  rw [Joint.up, h.c64.log, List.reverse_append, List.reverse_reverse]
  exact List.drop_left' (List.length_reverse)

/-- The responder's calls, on either level. -/
theorem Refines.responderEncrypt (h : Refines keyUp keyDown base S T) (plain : List UInt8) :
    Refines keyUp keyDown base (S.responderEncrypt plain) (T.responderEncrypt plain) := by
  have hfar := h.far
  simp only [Tunnel.far, Prod.mk.injEq] at hfar
  obtain ⟨hresp, hdown, hserved⟩ := hfar
  rw [Joint.responderEncrypt, Tunnel.responderEncrypt, hresp]
  rcases S.responder.encryptTransport plain with ⟨r, _ | packet⟩
  · exact ⟨⟨h.c64.keys, h.c64.session, h.c64.log⟩, by simp only [Tunnel.far, hdown, hserved]⟩
  · exact ⟨⟨h.c64.keys, h.c64.session, h.c64.log⟩, by simp only [Tunnel.far, hdown, hserved]⟩

theorem Refines.responderDecrypt (h : Refines keyUp keyDown base S T) (packet : List UInt8) :
    Refines keyUp keyDown base (S.responderDecrypt packet) (T.responderDecrypt packet) := by
  have hfar := h.far
  simp only [Tunnel.far, Prod.mk.injEq] at hfar
  obtain ⟨hresp, hdown, hserved⟩ := hfar
  rw [Joint.responderDecrypt, Tunnel.responderDecrypt, hresp]
  rcases S.responder.decryptTransport packet with ⟨r, _ | plain⟩
  · exact ⟨⟨h.c64.keys, h.c64.session, h.c64.log⟩, by simp only [Tunnel.far, hdown, hserved]⟩
  · exact ⟨⟨h.c64.keys, h.c64.session, h.c64.log⟩, by simp only [Tunnel.far, hdown, hserved]⟩

/-- One step of the program and the responder, as steps of the tunnel. -/
theorem Refines.step (h : Refines keyUp keyDown base S T)
    (hstep : Step env keyUp keyDown base S S') :
    ∃ T', Refines keyUp keyDown base S' T' ∧
      Relation.ReflTransGen (Tunnel.Step env.prims keyUp keyDown) T T' := by
  have hfar := h.far
  simp only [Tunnel.far, Prod.mk.injEq] at hfar
  obtain ⟨-, hdown, hserved⟩ := hfar
  cases hstep with
  | c64 same unforged =>
    rw [← hdown] at unforged
    obtain ⟨T', hfar, hmatches, hsteps⟩ := mainLoop_drives ⟨T, rfl, h.c64, .refl⟩ same unforged
    exact ⟨T', ⟨hmatches, hfar.trans h.far⟩, hsteps⟩
  | @responderEncrypt plain short room =>
    rw [← hdown] at room
    exact ⟨_, h.responderEncrypt plain, .single (.responderEncrypt T short room)⟩
  | @responderDecrypt packet short unforged =>
    rw [h.up, ← hserved] at unforged
    exact ⟨_, h.responderDecrypt packet, .single (.responderDecrypt T short unforged)⟩

/-- Every run. -/
theorem Refines.run (h : Refines keyUp keyDown base S T)
    (hrun : Relation.ReflTransGen (Step env keyUp keyDown base) S S') :
    ∃ T', Refines keyUp keyDown base S' T' ∧
      Relation.ReflTransGen (Tunnel.Step env.prims keyUp keyDown) T T' := by
  induction hrun with
  | refl => exact ⟨T, h, .refl⟩
  | tail _ hstep ih =>
    obtain ⟨T', hrefines, hsteps⟩ := ih
    obtain ⟨T'', hrefines', hsteps'⟩ := hrefines.step hstep
    exact ⟨T'', hrefines', hsteps.trans hsteps'⟩

/-! ## What this says of the program -/

/-- What holds of the program and the responder: the keys stay, every packet has had a counter of its
own, and each side reads what the other has sealed. -/
structure Sound (env : Env σ) (keyUp keyDown : Bytes 32) (base : List (List UInt8)) (S : Joint σ L) :
    Prop where
  keys : S.c64.hs.transportKeys = (keyUp, keyDown)
  counter : le S.c64.tp.tpSendCounter = (S.up base).length
  served : ∀ k plain, S.served[k]? = some plain → ∃ packet, (S.up base)[k]? = some packet ∧
    transportOpen env.prims keyUp k (packet.drop t4HdrLen) = some plain
  reads : ∀ udp : UdpRecv, Unforged env.prims keyDown (S.down.map Message.packet)
      (le (packetCounter udp)) udp.bytes →
    let r := callTransportDecrypt env { S.c64 with udp := udp }
    r.1 = true → ∃ msg, S.down[le (packetCounter udp)]? = some msg ∧
      (slice r.2.tp.tpPacket 16 r.2.tp.tpPayloadLen).toList = msg.plain
  takes : ∀ k msg, S.down[k]? = some msg → k < 2 ^ 60 →
    admits c64Policy (window S.c64.tp) k = true → ∀ udp : UdpRecv, udp.bytes = msg.packet →
    (callTransportDecrypt env { S.c64 with udp := udp }).1 = true

/-- The transport cells that `transport_decrypt` gets. -/
def receivedTp (m : Machine σ) : TpMem :=
  { m.tp with
    tpPacket := copy16 m.tp.tpPacket 0 m.udp.udpRecvBuf 0 m.udp.udpRecvLen
    tpPacketLen := m.udp.udpRecvLen }

theorem callTransportDecrypt_fst (env : Env σ) (m : Machine σ) : (callTransportDecrypt env m).1 =
    accepts env.prims m.hs.hsTransportRecv m.udp (receivedTp m) :=
  transportDecrypt_ok _ _ _ _ _

theorem callTransportDecrypt_tp (env : Env σ) (m : Machine σ) : (callTransportDecrypt env m).2.tp =
    (transportDecrypt env.prims m.hs.hsTransportRecv m.udp m.hs.toCryptoMem (receivedTp m)).2.2 :=
  rfl

theorem Refines.sound (hi : AeadInverts env.prims) (h : Refines keyUp keyDown base S T)
    (hinv : T.Inv env.prims view keyUp keyDown) : S.Sound env keyUp keyDown base := by
  have hfar := h.far
  simp only [Tunnel.far, Prod.mk.injEq] at hfar
  obtain ⟨-, hdown, hserved⟩ := hfar
  have hrecv : S.c64.hs.hsTransportRecv = keyDown := congrArg Prod.snd h.c64.keys
  have hcounter : S.c64.tp.tpSendCounter = T.tp.tpSendCounter := congrArg Prod.fst h.c64.session
  refine ⟨h.c64.keys, ?_, ?_, ?_, ?_⟩
  · rw [hcounter, hinv.sendCounter, h.up, List.length_map]
  · intro k plain hget
    rw [← hserved] at hget
    obtain ⟨rest, hrest⟩ := hinv.served
    obtain ⟨hlt, -⟩ := List.getElem?_eq_some_iff.mp hget
    have hplain : (T.up.map Message.plain)[k]? = some plain := by
      rw [← hrest, List.getElem?_append_left hlt]
      exact hget
    rw [List.getElem?_map, Option.map_eq_some_iff] at hplain
    obtain ⟨msg, hmsg, rfl⟩ := hplain
    refine ⟨msg.packet, ?_, (hinv.up k msg hmsg).opens⟩
    rw [h.up, List.getElem?_map, hmsg]
    rfl
  · intro udp unforged
    rw [← hdown] at unforged ⊢
    dsimp only
    rw [callTransportDecrypt_fst, callTransportDecrypt_tp]
    dsimp only
    rw [hrecv]
    intro hok
    have hopen := Tunnel.opens_of_accepts S.c64.hs.toCryptoMem hok
    obtain ⟨msg, hget, hsealed⟩ := unforged.message (by rw [hopen]; rfl)
    have hown := Tunnel.opens_of_sealedDown hi (hinv.down _ _ hget)
    rw [hsealed, hopen] at hown
    exact ⟨msg, hget, Option.some.inj hown⟩
  · intro k msg hget hmax hadm udp hbytes
    rw [← hdown] at hget
    rw [callTransportDecrypt_fst]
    dsimp only
    rw [hrecv]
    exact (Tunnel.accepts_posted hi (hinv.down k msg hget) hbytes hmax hadm).2

/-- What is outstanding can be delivered. -/
theorem Refines.brings (hL : L.Implements env.prims view) (h : Refines keyUp keyDown base S T)
    (hinv : T.Inv env.prims view keyUp keyDown) {outstanding : List Message}
    (hout : T.up.drop T.served.length = outstanding) :
    ∃ S', Relation.ReflTransGen (Step env keyUp keyDown base) S S' ∧ S'.c64 = S.c64 ∧
      S'.served.length = (S.up base).length := by
  induction outstanding generalizing S T with
  | nil =>
    have hfar := h.far
    simp only [Tunnel.far, Prod.mk.injEq] at hfar
    have hall := List.drop_eq_nil_iff.mp hout
    have hread := hinv.served.length_le
    rw [List.length_map] at hread
    refine ⟨S, .refl, rfl, ?_⟩
    rw [h.up, List.length_map, ← hfar.2.2]
    exact Nat.le_antisymm hread hall
  | cons msg rest ih =>
    have hfar := h.far
    simp only [Tunnel.far, Prod.mk.injEq] at hfar
    have hget : T.up[T.served.length]? = some msg := by
      rw [← List.head?_drop, hout]
      rfl
    have hsealed := hinv.up _ _ hget
    have hown : Unforged env.prims keyUp (T.up.map Message.packet) T.served.length msg.packet :=
      fun _ => ⟨msg.packet, by rw [List.getElem?_map, hget]; rfl, rfl⟩
    have hnext := hinv.responderDecrypt hL hsealed.short hown
    have hrefines := h.responderDecrypt msg.packet
    obtain ⟨r, hread⟩ := hinv.responderDecrypt_next hL hget
    rw [hread] at hnext hrefines
    have hrest : T.up.drop (T.served ++ [msg.plain]).length = rest := by
      rw [List.length_append, List.length_singleton, ← List.drop_drop, hout]
      rfl
    rw [← h.up, hfar.2.2] at hown
    obtain ⟨S', hsteps, hc64, hlen⟩ := ih hrefines hnext hrest
    have hkept : (S.responderDecrypt msg.packet).c64 = S.c64 := by
      rw [Joint.responderDecrypt]
      rcases S.responder.decryptTransport msg.packet with ⟨r', _ | plain⟩ <;> rfl
    have hup : (S.responderDecrypt msg.packet).up base = S.up base := by
      rw [Joint.up, hkept, Joint.up]
    exact ⟨S', .head (.responderDecrypt S hsealed.short hown) hsteps, hc64.trans hkept, hup ▸ hlen⟩

end Joint

/-- No packet of the tunnel is sent on the way to a session. -/
theorem transports_sessionHandlePacket {env : Env σ} {m : Machine σ} (hst : m.wgState = .hsSent) :
    transports (sessionHandlePacket env m).trace = transports m.trace := by
  have hclear : Still m { m with udp := { m.udp with udpRecvReady := false } } :=
    (Still.refl m).elsewhere rfl rfl rfl
  by_cases hopens : Opens env m
  · obtain ⟨-, h2, hok⟩ := hopens
    rw [sessionHandlePacket]
    dsimp only
    rw [if_pos h2, handleType2_accepts env (m := { m with udp := { m.udp with udpRecvReady := false } })
      hst hok]
    rfl
  · rw [sessionHandlePacket]
    dsimp only
    split_ifs with h2 h3 h4
    · exact (hclear.handleType2 env fun ho => hopens ⟨hst, h2, ho.2⟩).log
    · exact (hclear.handleType3 env).log
    · rw [handleType4, if_neg (by simp [hst])]
    · rfl

/-- **The program keeps its sessions.** When the iteration that follows takes the responder's answer from
the adapter, it opens a session. From then on until the program opens the next, whatever keys are
pressed, whatever the timers do and whatever comes: both sides hold the same keys, no counter is used
for two packets, the responder has read the first of the packets, each what was sealed in it, and can be
brought to read them all; and the C64 reads from a packet what the responder has sealed in it. -/
theorem sessions_tunnel {env : Env σ} (hL : L.Implements env.prims view)
    (he : L.Encrypts env.prims view) (hw : L.WritesMsg2) (ha : AeadAccepts env.prims)
    (ht : AeadAcceptsTransport env.prims) (hi : AeadInverts env.prims) {r : Responder L}
    (hnone : r.greatestTimestamps r.peerStaticPub = none) {world : σ} {ticks : Nat} {cfg : CfgMem}
    {S : Peers σ L} (hrun : Relation.ReflTransGen (Peers.Step env) (.start world ticks cfg r) S)
    (hst : S.c64.wgState = .hsSent) :
    ∃ older : List HsMem,
      initiations S.c64.trace = S.c64.hs.hsPacket.toList :: older.map (HsMem.made env.prims) ∧
      ∀ e, S.Ready env.prims older e →
        ∃ r' response, S.responder.handleInitiation S.c64.hs.hsPacket.toList e = (r', .ok response) ∧
          (Receives env S.c64 → (polled env S.c64).udp.bytes = response →
            let base := transports S.c64.trace
            ∃ keyUp keyDown, ∀ E : Joint σ L,
              Relation.ReflTransGen (Joint.Step env keyUp keyDown base)
                ⟨(mainLoop env S.c64).1, r', [], []⟩ E →
              E.Sound env keyUp keyDown base ∧
              ∃ E' : Joint σ L, Relation.ReflTransGen (Joint.Step env keyUp keyDown base) E E' ∧
                E'.c64 = E.c64 ∧ E'.served.length = (E.up base).length) := by
  obtain ⟨older, hsent, hanswers⟩ := Peers.answered hL hw ha hi hnone hrun hst
  refine ⟨older, hsent, fun e hready => ?_⟩
  obtain ⟨r', response, hanswer, hopens⟩ := hanswers e hready
  refine ⟨r', response, hanswer, fun hr hbytes => ?_⟩
  obtain ⟨-, hinv⟩ := hopens (polled env S.c64) hst rfl hbytes
  have hlog : transports (sessionHandlePacket env (polled env S.c64)).trace = transports S.c64.trace :=
    transports_sessionHandlePacket hst
  rw [mainLoop_eq_finish, pollAndHandle_receives hr]
  generalize sessionHandlePacket env (polled env S.c64) = m at *
  -- The rest of the iteration is already part of the session.
  have hstart : Reaches env.prims m.hs.hsTransportSend m.hs.hsTransportRecv (transports S.c64.trace)
      (Tunnel.fresh m.hs.toCryptoMem m.tp r') m :=
    ⟨_, rfl, ⟨rfl, rfl, hlog⟩, .refl⟩
  obtain ⟨T₀, hfar, hmatches, hsteps₀⟩ := hstart.finish
  refine ⟨m.hs.hsTransportSend, m.hs.hsTransportRecv, fun E hE => ?_⟩
  obtain ⟨T, hrefines, hsteps⟩ := Joint.Refines.run ⟨hmatches, hfar⟩ hE
  have hT := hinv.run hL he ht hi (hsteps₀.trans hsteps)
  exact ⟨hrefines.sound hi hT, hrefines.brings hL hT rfl⟩

/-! ### A world in which the answer comes -/

theorem response_fits : 92 ≤ udpRecvBufSize := by decide

/-- A response as a datagram. -/
def responseDatagram (response : List UInt8) : UdpRecv where
  udpRecvBuf := copyIn (zero _) 0 (ofList 92 response)
  udpRecvLen := 92
  udpRecvLen_le := response_fits
  udpRecvSrc := .start
  udpRecvReady := true

theorem bytes_responseDatagram {response : List UInt8} (hlen : response.length = 92) :
    (responseDatagram response).bytes = response := by
  have hslice : slice (copyIn (zero udpRecvBufSize) 0 (ofList 92 response)) 0 92 = ofList 92 response :=
    slice_copyIn_self _ _ (by decide)
  rw [UdpRecv.bytes, responseDatagram]
  dsimp only
  rw [hslice, toList_ofList hlen]

/-- What a responder sends back. -/
def Responder.sentBack (r : Responder L) (packet : List UInt8) (e : Bytes 32) : List UInt8 :=
  match r.handleInitiation packet e with
  | (_, .ok response) => response
  | (_, .error _) => []

theorem Responder.sentBack_ok (hw : L.WritesMsg2) {r r' : Responder L}
    {packet response : List UInt8} {e : Bytes 32}
    (h : r.handleInitiation packet e = (r', .ok response)) :
    r.sentBack packet e = response ∧ response.length = 92 := by
  refine ⟨by rw [sentBack, h], ?_⟩
  rcases r.handleInitiation_cases hw packet e with ⟨err, hno⟩ | ⟨_, _, _, hyes, -, -, -, hlong⟩
  · rw [hno] at h
    cases h
  · rw [hyes] at h
    cases h
    exact hlong

/-- The answer to the initiation of `asking`. -/
def askedResponse : List UInt8 :=
  scriptedPeers.responder.sentBack asking.hs.hsPacket.toList (sampleKey 2)

theorem asking_waits : asking.netInitialized = true ∧ asking.world.polls = 1 := by
  decide +kernel

/-- What comes later changes nothing so far. -/
theorem deliveringPeers_asks (packet : UdpRecv) :
    Relation.ReflTransGen (Peers.Step (delivering packet)) scriptedPeers
      { scriptedPeers with c64 := asking } := by
  have hfirst : mainLoop (delivering packet) scriptedPeers.c64 = mainLoop scripted scriptedPeers.c64 :=
    mainLoop_withPoll _ _ (commandPoint_delivering_eq packet fun h => absurd h (by decide))
  have hsecond : mainLoop (delivering packet) (mainLoop scripted scriptedPeers.c64).1 =
      mainLoop scripted (mainLoop scripted scriptedPeers.c64).1 :=
    mainLoop_withPoll _ _ (commandPoint_delivering_eq packet fun _ => by decide +kernel)
  have hsteps := (Relation.ReflTransGen.single (.c64 scriptedPeers)).tail (.c64 _)
    (r := Peers.Step (delivering packet))
  rw [hfirst, hsecond] at hsteps
  exact hsteps

/-- Its next poll. -/
theorem receives_askedResponse : Receives (delivering (responseDatagram askedResponse)) asking ∧
    (polled (delivering (responseDatagram askedResponse)) asking).udp =
      responseDatagram askedResponse := by
  obtain ⟨hinit, hpolls⟩ := asking_waits
  generalize askedResponse = response
  generalize asking = m at *
  have hudp : (polled (delivering (responseDatagram response)) m).udp = responseDatagram response :=
    if_pos hpolls
  exact ⟨⟨hinit, by rw [hudp]; rfl⟩, hudp⟩

/-- The session that the answer opens. -/
theorem sessions_tunnel_asking :
    let env := delivering (responseDatagram askedResponse)
    ∃ r' keyUp keyDown, ∀ E,
      Relation.ReflTransGen (Joint.Step env keyUp keyDown (transports asking.trace))
        (⟨(mainLoop env asking).1, r', [], []⟩ : Joint Script (rfcNoise rfcPrims)) E →
      E.Sound env keyUp keyDown (transports asking.trace) := by
  obtain ⟨hst, -, -, -, hone⟩ := asking_facts
  have hw : (rfcNoise rfcPrims).WritesMsg2 := rfcNoise_writesMsg2 fun _ _ _ _ _ _ => rfl
  obtain ⟨older, hsent, hsessions⟩ := sessions_tunnel (rfcNoise_implements rfcPrims)
    (rfcNoise_encrypts rfcPrims) hw (fun _ _ _ _ _ _ => rfl) (fun _ _ _ _ _ => rfl)
    rfcPrims_aeadInverts rfl (deliveringPeers_asks (responseDatagram askedResponse)) hst
  have hlen := congrArg List.length hsent
  rw [hone, List.length_cons, List.length_map] at hlen
  obtain rfl : older = [] := List.eq_nil_of_length_eq_zero (by omega)
  obtain ⟨r', response, hanswer, hsound⟩ := hsessions (sampleKey 2) ready_asking
  obtain ⟨hasked, hlong⟩ := Responder.sentBack_ok hw hanswer
  have hbytes : (responseDatagram askedResponse).bytes = response := by
    rw [show askedResponse = response from hasked]
    exact bytes_responseDatagram hlong
  obtain ⟨hreceives, hudp⟩ := receives_askedResponse
  obtain ⟨keyUp, keyDown, hall⟩ := hsound hreceives ((congrArg UdpRecv.bytes hudp).trans hbytes)
  exact ⟨r', keyUp, keyDown, fun E hE => (hall E hE).1⟩

end C64WireGuard
