import C64WireGuard.Conformance
import C64WireGuard.Scripted
import C64WireGuard.WorldInvariant

/-!
# `rekey_pending`

`timer_check` raises the flag when a session is two minutes old, and `transport_encrypt` when its
counter nears the end. Nothing lowers it again. A run is cut at the moments that matter to it, in the
states that they find (`runMoments`); the flag is up exactly when one of them has raised it
(`Flagged`), in whatever session that was. So it tells of the session that it is read in as
long as no earlier session has raised it, and no longer (`run_signals`).
-/

namespace C64WireGuard

open Bytes

variable {σ : Type}

/-! ## Moments -/

/-- What matters to the flag, with the machine it finds: `@type2` has accepted a response and is about
to enter `ACTIVE`, `@check_rekey` is about to run, `transport_encrypt` is about to be called. -/
inductive Moment (σ : Type)
  | accepted (m : Machine σ)
  | look (m : Machine σ)
  | encrypt (m : Machine σ)

/-- The machine it finds. -/
def Moment.machine : Moment σ → Machine σ
  | .accepted m => m
  | .look m => m
  | .encrypt m => m

/-- Those of `transport_send`. Lists of moments are kept newest first. -/
def sendMoments (env : Env σ) (m : Machine σ) : List (Moment σ) :=
  if env.build.wgMtu < m.tp.tpPayloadLen then [] else [.encrypt m]

/-- Those of `@check_keepalive`. -/
def keepaliveMoments (env : Env σ) (m : Machine σ) : List (Moment σ) :=
  let m := m.elapse env
  if timerElapsedCmp m.jiffy m.timer.lastSendJiffy 0x58 0x02 then
    sendMoments env { m with tp := { m.tp with tpPayloadLen := 0 } }
  else []

/-- Those of `@active`. A session that has expired is dropped before `@check_rekey`. -/
def activeMoments (env : Env σ) (m : Machine σ) : List (Moment σ) :=
  if timerElapsedCmp m.jiffy m.timer.sessionStartJiffy 0x30 0x2a then []
  else keepaliveMoments env (checkRekey env m) ++ [.look m]

/-- Those of `timer_check`. -/
def timerMoments (env : Env σ) (m : Machine σ) : List (Moment σ) :=
  let m := m.elapse env
  let m := m.log (.timerCheck m.ticks)
  if m.wgState = .active then activeMoments env m else []

/-- Those of `@type2`. -/
def type2Moments (env : Env σ) (m : Machine σ) : List (Moment σ) :=
  if m.wgState = .hsSent then
    let r := callHsProcessResponse env m
    if r.1 then [.accepted r.2] else []
  else []

/-- Those of `session_handle_packet`. -/
def packetMoments (env : Env σ) (m : Machine σ) : List (Moment σ) :=
  let m := { m with udp := { m.udp with udpRecvReady := false } }
  if byte m.udp.udpRecvBuf 0 = 2 then type2Moments env m else []

/-- Those of a poll. -/
def pollMoments (env : Env σ) (m : Machine σ) : List (Moment σ) :=
  let m := m.elapse env
  if m.netInitialized then
    let r := env.net.netPoll m.netUdpDest m.udp m.world
    let m := { m with world := r.1, udp := r.2 }
    if m.udp.udpRecvReady then packetMoments env m else []
  else []

/-- Those of a command. -/
def commandMoments (env : Env σ) (m : Machine σ) : Command → List (Moment σ)
  | .sendTest =>
    sendMoments env { m with tp := { m.tp with tpPayloadPtr := .testPayload, tpPayloadLen := 15 } }
  | .ping =>
    if m.wgState = .active then
      sendMoments env (stageIpPacket { m with ip := icmpBuildEcho m.cfg m.ip })
    else []
  | .message =>
    if m.wgState = .active then
      let m := readInputLine env (m.printString .msgPrompt)
      let text := .ipPacketBuf ipUdpHdrLen
      let m := { m with ip := udpTunnelBuild env.build text m.ip.msgInputLen m.cfg m.ip }
      sendMoments env (stageIpPacket m)
    else []
  | _ => []

/-- Those of an iteration of the main loop. -/
def loopMoments (env : Env σ) (m : Machine σ) : List (Moment σ) :=
  let polled := pollMoments env m
  let m := pollAndHandle env m
  let timed := timerMoments env m
  let m := timerCheck env m
  let r := getCommand env m
  match r.1 with
  | none => timed ++ polled
  | some c => commandMoments env r.2 c ++ timed ++ polled

/-- Those of a run. -/
def runMoments (env : Env σ) : Nat → Machine σ → List (Moment σ)
  | 0, _ => []
  | n + 1, m =>
    let r := mainLoop env m
    (if r.2 then runMoments env n r.1 else []) ++ loopMoments env m

/-! ## What raises the flag -/

/-- From this counter on a rekey is asked for. -/
def rekeyCounter : Nat := 15 * 2 ^ 56

/-- The comparison of `@check_rekey`, or the counter, raises the flag. -/
def Moment.Raises (env : Env σ) : Moment σ → Prop
  | .accepted _ => False
  | .look m => timerElapsedCmp (m.elapse env).jiffy m.timer.sessionStartJiffy 0x20 0x1c = true
  | .encrypt m => rekeyCounter ≤ le m.tp.tpSendCounter

/-- The ticks since the session began. -/
def sessionTicks (env : Env σ) (m : Machine σ) : Nat := (m.elapse env).ticks - latestStart m.trace

/-- A rekey is due: the session is two minutes old, or its counter nears the end. -/
def Moment.Due (env : Env σ) : Moment σ → Prop
  | .accepted _ => False
  | .look m => 7200 ≤ sessionTicks env m
  | .encrypt m => rekeyCounter ≤ le m.tp.tpSendCounter

/-- The session is not older than the 16 bits that the program compares. -/
def Moment.Within (env : Env σ) : Moment σ → Prop
  | .look m => sessionTicks env m < 65536
  | _ => True

/-- Within 16 bits, the comparison is that of the true number of ticks. -/
def Moment.Exact (env : Env σ) : Moment σ → Prop
  | .look m => sessionTicks env m < 65536 →
      ComparesExactly (latestStart m.trace) (m.elapse env).ticks 7200
  | _ => True

/-- No session has begun among these. -/
def NoneAccepted (h : List (Moment σ)) : Prop := ∀ m, .accepted m ∉ h

/-- The machine is `m` when `before` is over: at one of the moments, or at the end. -/
def Finds (h : List (Moment σ)) (last : Machine σ) (before : List (Moment σ)) (m : Machine σ) : Prop :=
  (before = h ∧ m = last) ∨ ∃ newer x, h = newer ++ x :: before ∧ m = x.machine

/-- The flag tells of the session. -/
structure Signals (env : Env σ) (h : List (Moment σ)) (last : Machine σ) : Prop where
  /-- A live session has begun at a moment, and none has begun since. -/
  entered : ∀ before m, Finds h last before m → m.wgState = .active →
    ∃ since begun older, before = since ++ .accepted begun :: older ∧ NoneAccepted since
  /-- It is down when a session begins. -/
  lowered : ∀ m, .accepted m ∈ h → m.timer.rekeyPending = false
  /-- In a session it is up once a rekey was due, and not otherwise. -/
  session : ∀ since begun older m, Finds h last (since ++ .accepted begun :: older) m →
    NoneAccepted since → m.wgState = .active →
    ((∃ x ∈ since, x.Due env ∧ x.Within env) → m.timer.rekeyPending = true) ∧
      (m.timer.rekeyPending = true → ∃ x ∈ since, x.Due env)
  /-- The check that finds it due first says so. -/
  printed : ∀ newer m since begun older, h = newer ++ .look m :: (since ++ .accepted begun :: older) →
    NoneAccepted since → (∀ x ∈ since, ¬ x.Due env) → (Moment.look m).Due env →
    (Moment.look m).Within env → (checkRekey env m).timer.rekeyPending = true ∧
      (checkRekey env m).trace = .printString .rekeyMsg :: m.trace

/-- No session begins after the flag was raised. -/
def FirstRaisedLast (env : Env σ) (h : List (Moment σ)) : Prop :=
  ∀ newer m older, h = newer ++ .accepted m :: older → ∀ x ∈ older, ¬ x.Raises env

/-! ## What is quiet -/

/-- No moment lies between the two: flag and counter are the same, and a session that is live after is
the one that was live before. -/
structure Quiet (m m' : Machine σ) : Prop where
  pending : m'.timer.rekeyPending = m.timer.rekeyPending
  counter : m'.tp.tpSendCounter = m.tp.tpSendCounter
  session : m'.wgState = .active → m.wgState = .active ∧
    m'.timer.sessionStartJiffy = m.timer.sessionStartJiffy ∧ latestStart m'.trace = latestStart m.trace
  ticks : m.ticks ≤ m'.ticks

namespace Quiet

variable {env : Env σ} {m m' m'' : Machine σ}

theorem refl (m : Machine σ) : Quiet m m := ⟨rfl, rfl, fun h => ⟨h, rfl, rfl⟩, Nat.le_refl _⟩

theorem trans (h : Quiet m m') (h' : Quiet m' m'') : Quiet m m'' where
  pending := h'.pending.trans h.pending
  counter := h'.counter.trans h.counter
  session hactive := by
    obtain ⟨hmid, hclock', hstart'⟩ := h'.session hactive
    obtain ⟨hfirst, hclock, hstart⟩ := h.session hmid
    exact ⟨hfirst, hclock'.trans hclock, hstart'.trans hstart⟩
  ticks := h.ticks.trans h'.ticks

/-- Changes elsewhere. -/
theorem elsewhere (h : Quiet m m') (hpending : m''.timer.rekeyPending = m'.timer.rekeyPending)
    (hcounter : m''.tp.tpSendCounter = m'.tp.tpSendCounter) (hstate : m''.wgState = m'.wgState)
    (hclock : m''.timer.sessionStartJiffy = m'.timer.sessionStartJiffy)
    (hstart : latestStart m''.trace = latestStart m'.trace) (hticks : m'.ticks ≤ m''.ticks) :
    Quiet m m'' :=
  h.trans ⟨hpending, hcounter, fun hactive => ⟨hstate ▸ hactive, hclock, hstart⟩, hticks⟩

theorem elapse (h : Quiet m m') (env : Env σ) : Quiet m (m'.elapse env) :=
  h.elsewhere rfl rfl rfl rfl rfl (Nat.le_add_right _ _)

theorem printString (h : Quiet m m') (s : Str) : Quiet m (m'.printString s) :=
  h.elsewhere rfl rfl rfl rfl rfl (Nat.le_refl _)

theorem chroutAll (h : Quiet m m') (bs : List UInt8) : Quiet m (m'.chroutAll bs) := by
  have hstart : ∀ (bs : List UInt8) (log : List Event),
      latestStart (bs.map Event.chrout ++ log) = latestStart log := by
    intro bs log
    induction bs with
    | nil => rfl
    | cons b bs ih => exact ih
  refine h.elsewhere rfl rfl rfl rfl ?_ (Nat.le_refl _)
  rw [Machine.chroutAll, ← List.map_reverse]
  exact hstart _ _

theorem netUdpClose (h : Quiet m m') (env : Env σ) : Quiet m (m'.netUdpClose env) :=
  h.elsewhere rfl rfl rfl rfl rfl (Nat.le_refl _)

theorem netUdpSend (h : Quiet m m') (env : Env σ) (pkt : List UInt8) :
    Quiet m (m'.netUdpSend env pkt).1 :=
  h.elsewhere rfl rfl rfl rfl rfl (Nat.le_refl _)

theorem timerMarkSend (h : Quiet m m') (env : Env σ) : Quiet m (timerMarkSend env m') :=
  h.elsewhere rfl rfl rfl rfl rfl (Nat.le_add_right _ _)

theorem msgSendFail (h : Quiet m m') (env : Env σ) : Quiet m (msgSendFail env m') :=
  (h.printString _).chroutAll _

/-- A session that ends is none that is live. -/
theorem sessionReset (h : Quiet m m') (env : Env σ) : Quiet m (sessionReset env m') :=
  h.trans ⟨rfl, rfl, (fun hactive => by cases hactive), Nat.le_refl _⟩

/-! ### Initiating -/

theorem configLoad (h : Quiet m m') (env : Env σ) : Quiet m (configLoad env m').2 := by
  have hload : Quiet m (loadEndpoint env (loadKeys m')) := by
    rw [loadEndpoint]
    split
    · exact h.elsewhere rfl rfl rfl rfl rfl (Nat.le_refl _)
    · exact h.elsewhere rfl rfl rfl rfl rfl (Nat.le_refl _)
  exact (hload.elapse env).elsewhere rfl rfl rfl rfl rfl (Nat.le_refl _)

theorem entropyFill (h : Quiet m m') (env : Env σ) (n : Nat) (carry : Bool) :
    Quiet m (entropyFill env n carry m').2.2 := by
  have hloop : ∀ n filled carry (m' : Machine σ), Quiet m m' →
      Quiet m (entropyLoop env n filled carry m').2.2 := by
    intro n
    induction n with
    | zero => exact fun _ _ _ h => h
    | succ n ih =>
      intro filled carry m' h
      exact ih _ _ _ (h.elsewhere rfl rfl rfl rfl rfl (Nat.le_refl _))
  exact hloop n [] carry m' h

theorem sessionPrepare (h : Quiet m m') (env : Env σ) : Quiet m (sessionPrepare env m') := by
  have hload := h.configLoad env
  rw [C64WireGuard.sessionPrepare]
  generalize C64WireGuard.configLoad env m' = c at *
  have hpriv := hload.entropyFill env 32 c.1
  generalize C64WireGuard.entropyFill env 32 c.1 c.2 = priv at *
  have hmid : Quiet m { priv.2.2 with hs := { priv.2.2.hs with hsEphemPriv := priv.1 } } :=
    hpriv.elsewhere rfl rfl rfl rfl rfl (Nat.le_refl _)
  have hidx := hmid.entropyFill env 4 priv.2.1
  generalize C64WireGuard.entropyFill env 4 priv.2.1 _ = idx at *
  exact hidx.elsewhere rfl rfl rfl rfl rfl (Nat.le_add_right _ _)

/-- An initiation leaves no live session. -/
theorem sessionInitiate (h : Quiet m m') (env : Env σ) : Quiet m (sessionInitiate env m') := by
  have hprepare := h.sessionPrepare env
  rw [C64WireGuard.sessionInitiate, sendInitiation]
  generalize C64WireGuard.sessionPrepare env m' = r at *
  split
  · exact hprepare.trans ⟨rfl, rfl, (fun hactive => by cases hactive), Nat.le_refl _⟩
  · exact hprepare.trans ⟨rfl, rfl, (fun hactive => by cases hactive), Nat.le_add_right _ _⟩

theorem handshake (h : Quiet m m') (env : Env σ) : Quiet m (doHandshake env m') := by
  rw [doHandshake]
  refine sessionInitiate ?_ env
  exact h.elsewhere rfl rfl rfl rfl rfl (Nat.le_add_right _ _)

/-! ### Receiving -/

theorem handleType3 (h : Quiet m m') (env : Env σ) : Quiet m (handleType3 env m') := by
  rw [C64WireGuard.handleType3]
  split
  · have hcall : Quiet m (callCookieHandleType3 env m').2 :=
      h.elsewhere rfl rfl rfl rfl rfl (Nat.le_refl _)
    generalize callCookieHandleType3 env m' = r at *
    dsimp only
    split
    · exact (hcall.printString _).sessionInitiate env
    · exact hcall
  · exact h

theorem endpointUpdate (h : Quiet m m') (env : Env σ) : Quiet m (endpointUpdate env m') := by
  rw [C64WireGuard.endpointUpdate]
  split
  · exact h
  · exact h.elsewhere rfl rfl rfl rfl rfl (Nat.le_refl _)

theorem routePayload (h : Quiet m m') (env : Env σ) : Quiet m (routePayload env m') := by
  have hdisplay : ∀ {m' : Machine σ}, Quiet m m' → Quiet m (displayPayload m') := fun h =>
    (h.printString _).chroutAll _
  rw [C64WireGuard.routePayload]
  split
  · rw [handleIcmp]
    split
    · exact h.printString _
    · exact hdisplay h
  · split
    · have hr : Quiet m { m' with ip := (udpTunnelParse env.build m'.tp m'.ip).2 } :=
        h.elsewhere rfl rfl rfl rfl rfl (Nat.le_refl _)
      rw [handleUdp]
      dsimp only
      split
      · exact (hr.printString _).chroutAll _
      · exact hdisplay hr
    · exact hdisplay h

theorem handleType4 (h : Quiet m m') (env : Env σ) : Quiet m (handleType4 env m') := by
  rw [C64WireGuard.handleType4]
  split
  · have hcall : Quiet m (callTransportDecrypt env m').2 := by
      have hcounter := (transportDecrypt_send env.prims m'.hs.hsTransportRecv m'.udp
        m'.hs.toCryptoMem { m'.tp with
          tpPacket := copy16 m'.tp.tpPacket 0 m'.udp.udpRecvBuf 0 m'.udp.udpRecvLen
          tpPacketLen := m'.udp.udpRecvLen }).1
      exact h.elsewhere rfl hcounter rfl rfl rfl (Nat.le_refl _)
    generalize callTransportDecrypt env m' = r at *
    dsimp only
    split
    · exact (hcall.endpointUpdate env).routePayload env
    · exact hcall.printString _
  · exact h

/-! ### Timers and commands -/

theorem timerCheckHandshake (h : Quiet m m') (env : Env σ) : Quiet m (timerCheckHandshake env m') := by
  rw [C64WireGuard.timerCheckHandshake]
  dsimp only
  split_ifs
  · exact ((h.elapse env).sessionReset env).printString _
  · exact h.elapse env
  · exact h

theorem doNetInit (h : Quiet m m') (env : Env σ) : Quiet m (doNetInit env m') := by
  rw [C64WireGuard.doNetInit]
  dsimp only
  split_ifs
  all_goals exact h.elsewhere rfl rfl rfl rfl rfl (Nat.le_refl _)

theorem readInputLine (h : Quiet m m') (env : Env σ) : Quiet m (readInputLine env m') := by
  have hread : Quiet m { m' with
      world := (env.host.getinLine m'.world).1
      ip := (readInputLoop env.build (env.host.getinLine m'.world).2
        { m'.ip with msgInputLen := 0 }).1 } :=
    h.elsewhere rfl rfl rfl rfl rfl (Nat.le_refl _)
  exact (hread.chroutAll _).elapse env

theorem doLoadConfig (h : Quiet m m') (env : Env σ) : Quiet m (doLoadConfig env m') :=
  h.elsewhere rfl rfl rfl rfl rfl (Nat.le_refl _)

theorem getCommand (h : Quiet m m') (env : Env σ) : Quiet m (getCommand env m').2 :=
  h.elsewhere rfl rfl rfl rfl rfl (Nat.le_add_right _ _)

end Quiet

/-! ## The invariant -/

/-- After the moments `h`, the flag is up exactly when one of them has raised it; until then the
counter has not passed the mark. In a session the clock cell is that of its start. -/
structure Flagged (env : Env σ) (h : List (Moment σ)) (m : Machine σ) : Prop where
  pending : m.timer.rekeyPending = true ↔ ∃ x ∈ h, x.Raises env
  counter : (∀ x ∈ h, ¬ x.Raises env) → le m.tp.tpSendCounter ≤ rekeyCounter
  clock : m.wgState = .active →
    m.timer.sessionStartJiffy = jiffyAt (latestStart m.trace) ∧ latestStart m.trace ≤ m.ticks
  entered : m.wgState = .active → ∃ begun, .accepted begun ∈ h

/-- Each of the moments found such a machine, and `@check_rekey` a live session. -/
inductive History (env : Env σ) : List (Moment σ) → Prop
  | nil : History env []
  | cons {h : List (Moment σ)} {x : Moment σ} (past : History env h)
      (found : Flagged env h x.machine) (live : ∀ m, x = .look m → m.wgState = .active) :
      History env (x :: h)

/-- Both, of the moments so far and the machine now. -/
structure Told (env : Env σ) (h : List (Moment σ)) (m : Machine σ) : Prop where
  past : History env h
  now : Flagged env h m

variable {env : Env σ} {h : List (Moment σ)} {m m' : Machine σ}

theorem History.split {newer before : List (Moment σ)} {x : Moment σ}
    (hh : History env (newer ++ x :: before)) :
    History env before ∧ Flagged env before x.machine ∧ ∀ m, x = .look m → m.wgState = .active := by
  induction newer with
  | nil =>
    obtain _ | ⟨past, found, live⟩ := hh
    exact ⟨past, found, live⟩
  | cons y newer ih =>
    obtain _ | ⟨past, -, -⟩ := hh
    exact ih past

theorem Flagged.quiet (hm : Flagged env h m) (hq : Quiet m m') : Flagged env h m' where
  pending := by rw [hq.pending, hm.pending]
  counter hnone := by
    rw [hq.counter]
    exact hm.counter hnone
  clock hactive := by
    obtain ⟨hbefore, hclock, hstart⟩ := hq.session hactive
    obtain ⟨hcell, hle⟩ := hm.clock hbefore
    rw [hclock, hstart]
    exact ⟨hcell, hle.trans hq.ticks⟩
  entered hactive := hm.entered (hq.session hactive).1

theorem Told.quiet (hm : Told env h m) (hq : Quiet m m') : Told env h m' :=
  ⟨hm.past, hm.now.quiet hq⟩

theorem exists_mem_cons_raises {x : Moment σ} :
    (∃ y ∈ x :: h, y.Raises env) ↔ x.Raises env ∨ ∃ y ∈ h, y.Raises env := by
  simp only [List.mem_cons, exists_eq_or_imp]

/-! ### A session begins -/

/-- What `@type2` does once the response is accepted. -/
def enterActive (env : Env σ) (m : Machine σ) : Machine σ :=
  (timerSessionStart env
    ((({ m with tp := transportInit m.hs.hsRespPacket m.tp } : Machine σ).log
      .transportInit).setState .active)).printString .hsOkMsg

theorem Told.accepted (hm : Told env h m) : Told env (.accepted m :: h) (enterActive env m) where
  past := .cons hm.past hm.now (fun _ heq => nomatch heq)
  now :=
    { pending := by
        rw [exists_mem_cons_raises]
        exact hm.now.pending.trans (or_iff_right id).symm
      counter := fun _ => by
        have hzero : le (enterActive env m).tp.tpSendCounter = 0 := le_zero
        rw [hzero]
        exact Nat.zero_le _
      clock := fun _ => ⟨rfl, Nat.le_refl _⟩
      entered := fun _ => ⟨m, List.mem_cons_self⟩ }

/-! ### `@check_rekey` -/

/-- The check raises the flag when its comparison says so, and prints. -/
theorem checkRekey_cases (env : Env σ) (m : Machine σ) :
    (m.timer.rekeyPending = true ∧ checkRekey env m = m) ∨
      m.timer.rekeyPending = false ∧
        ((Moment.look m).Raises env ∧ (checkRekey env m).timer.rekeyPending = true ∧
            (checkRekey env m).trace = .printString .rekeyMsg :: m.trace ∨
          ¬ (Moment.look m).Raises env ∧ checkRekey env m = m.elapse env) := by
  rw [checkRekey]
  cases hpending : m.timer.rekeyPending with
  | true => exact .inl ⟨rfl, if_pos rfl⟩
  | false =>
    rw [if_neg Bool.false_ne_true]
    dsimp only
    by_cases hcmp : timerElapsedCmp (m.elapse env).jiffy
        (m.elapse env).timer.sessionStartJiffy 0x20 0x1c = true
    · rw [if_pos hcmp]
      exact .inr ⟨rfl, .inl ⟨hcmp, rfl, rfl⟩⟩
    · rw [if_neg hcmp]
      exact .inr ⟨rfl, .inr ⟨hcmp, rfl⟩⟩

/-- It changes nothing else but the time. -/
theorem checkRekey_frame (env : Env σ) (m : Machine σ) :
    (checkRekey env m).tp = m.tp ∧ (checkRekey env m).wgState = m.wgState ∧
      (checkRekey env m).timer.sessionStartJiffy = m.timer.sessionStartJiffy ∧
      latestStart (checkRekey env m).trace = latestStart m.trace ∧
      m.ticks ≤ (checkRekey env m).ticks := by
  rw [checkRekey]
  split
  · exact ⟨rfl, rfl, rfl, rfl, Nat.le_refl _⟩
  · dsimp only
    split
    · exact ⟨rfl, rfl, rfl, rfl, Nat.le_add_right _ _⟩
    · exact ⟨rfl, rfl, rfl, rfl, Nat.le_add_right _ _⟩

theorem Told.look (hm : Told env h m) (hactive : m.wgState = .active) :
    Told env (.look m :: h) (checkRekey env m) where
  past := by
    refine .cons hm.past hm.now fun m' heq => ?_
    cases heq
    exact hactive
  now := by
    obtain ⟨htp, hstate, hclock, hstart, hticks⟩ := checkRekey_frame env m
    refine ⟨?_, fun hnone => ?_, fun hlive => ?_, fun _ => ?_⟩
    · rw [exists_mem_cons_raises]
      rcases checkRekey_cases env m with ⟨hup, hsame⟩ | ⟨hdown, ⟨hraises, hup, -⟩ | ⟨hnot, hsame⟩⟩
      · rw [hsame]
        exact iff_of_true hup (.inr (hm.now.pending.mp hup))
      · exact iff_of_true hup (.inl hraises)
      · rw [hsame]
        exact hm.now.pending.trans (or_iff_right hnot).symm
    · rw [htp]
      exact hm.now.counter fun x hx => hnone x (List.mem_cons_of_mem _ hx)
    · rw [hstate] at hlive
      obtain ⟨hcell, hle⟩ := hm.now.clock hlive
      rw [hclock, hstart]
      exact ⟨hcell, hle.trans hticks⟩
    · obtain ⟨begun, hbegun⟩ := hm.now.entered hactive
      exact ⟨begun, List.mem_cons_of_mem _ hbegun⟩

/-! ### `transport_encrypt` -/

theorem rekey_byte_iff (c : Bytes 8) : rekeyCounterB7 ≤ byte c 7 ↔ rekeyCounter ≤ le c := by
  have hlt := le_lt (slice c 0 7)
  rw [le_eq_add c (m := 7) (k := 1) rfl, slice_last, rekeyCounterB7, rekeyCounter,
    UInt8.le_iff_toNat_le]
  simp only [UInt8.reduceToNat]
  omega

/-- Whether `transport_encrypt` raises the flag, and what it does to the counter. -/
theorem transportEncrypt_rekey (p : Primitives) (key : Bytes 32) (payload : Bytes udpRecvBufSize)
    (c : CryptoMem) (t : TpMem) :
    let r := transportEncrypt p key payload c t
    (r.2.2.2 = true ↔ rekeyCounter ≤ le t.tpSendCounter ∧ le t.tpSendCounter < 2 ^ 60) ∧
      le r.2.1.tpSendCounter ≤ le t.tpSendCounter + 1 := by
  have hrekey := rekey_byte_iff t.tpSendCounter
  have hlimit := top_byte_lt_iff t.tpSendCounter
  rw [transportEncrypt]
  dsimp only
  split
  · rename_i hover
    exact ⟨iff_of_false Bool.false_ne_true fun h => hlimit.mpr h.2 hover, Nat.le_succ _⟩
  · rename_i hunder
    have hflag : decide (rekeyCounterB7 ≤ byte t.tpSendCounter 7) = true ↔
        rekeyCounter ≤ le t.tpSendCounter ∧ le t.tpSendCounter < 2 ^ 60 := by
      rw [decide_eq_true_iff, hrekey, and_iff_left (hlimit.mp hunder)]
    split
    · exact ⟨hflag, Nat.le_succ _⟩
    · refine ⟨hflag, ?_⟩
      rw [counterInc64, le_inc]
      exact Nat.mod_le _ _

/-- The call changes the flag and the counter, as `transport_encrypt` does. -/
theorem callTransportEncrypt_frame (env : Env σ) (sender : Sender) (m : Machine σ) :
    let r := transportEncrypt env.prims m.hs.hsTransportSend (payloadBytes m) m.hs.toCryptoMem m.tp
    let m' := (callTransportEncrypt env sender m).1
    m'.timer.rekeyPending = (m.timer.rekeyPending || r.2.2.2) ∧ m'.tp = r.2.1 ∧
      m'.wgState = m.wgState ∧ m'.timer.sessionStartJiffy = m.timer.sessionStartJiffy ∧
      latestStart m'.trace = latestStart m.trace ∧ m'.ticks = m.ticks := by
  unfold callTransportEncrypt
  dsimp only
  split
  · exact ⟨rfl, rfl, rfl, rfl, rfl, rfl⟩
  · exact ⟨rfl, rfl, rfl, rfl, rfl, rfl⟩

theorem Told.encrypt (hm : Told env h m) (sender : Sender) :
    Told env (.encrypt m :: h) (callTransportEncrypt env sender m).1 where
  past := .cons hm.past hm.now (fun _ heq => nomatch heq)
  now := by
    obtain ⟨hpending, htp, hstate, hclock, hstart, hticks⟩ := callTransportEncrypt_frame env sender m
    obtain ⟨hflag, hnext⟩ := transportEncrypt_rekey env.prims m.hs.hsTransportSend (payloadBytes m)
      m.hs.toCryptoMem m.tp
    generalize transportEncrypt env.prims m.hs.hsTransportSend (payloadBytes m) m.hs.toCryptoMem m.tp
      = r at *
    have hraises : (Moment.encrypt m).Raises env ↔ rekeyCounter ≤ le m.tp.tpSendCounter := Iff.rfl
    refine ⟨?_, fun hnone => ?_, fun hlive => ?_, fun hlive => ?_⟩
    · rw [exists_mem_cons_raises, hpending, Bool.or_eq_true, hm.now.pending, hflag, hraises, or_comm]
      by_cases hsome : ∃ x ∈ h, x.Raises env
      · exact iff_of_true (.inr hsome) (.inr hsome)
      · -- until the flag is up the counter is below the one that is refused
        have hcounter := hm.now.counter fun x hx hr => hsome ⟨x, hx, hr⟩
        refine or_congr_left (and_iff_left ?_)
        rw [rekeyCounter] at hcounter
        omega
    · have hbefore := hnone _ List.mem_cons_self
      rw [hraises] at hbefore
      rw [htp]
      omega
    · rw [hstate] at hlive
      obtain ⟨hcell, hle⟩ := hm.now.clock hlive
      rw [hclock, hstart, hticks]
      exact ⟨hcell, hle⟩
    · rw [hstate] at hlive
      obtain ⟨begun, hbegun⟩ := hm.now.entered hlive
      exact ⟨begun, List.mem_cons_of_mem _ hbegun⟩

/-! ## The routines -/

theorem transportSend_told (hm : Told env h m) (sender : Sender) :
    Told env (sendMoments env m ++ h) (transportSend env sender m).1 := by
  rw [transportSend, sendMoments]
  split
  · exact hm
  · have hcall := hm.encrypt sender
    generalize callTransportEncrypt env sender m = r at *
    dsimp only
    split
    · exact hcall
    · have hstaged : Quiet r.1 (sessionStageDest r.1) :=
        .elsewhere (.refl r.1) rfl rfl rfl rfl rfl (Nat.le_refl _)
      exact hcall.quiet (hstaged.netUdpSend env _)

theorem checkKeepalive_told (hm : Told env h m) :
    Told env (keepaliveMoments env m ++ h) (checkKeepalive env m) := by
  have helapse := hm.quiet (.elapse (.refl m) env)
  rw [checkKeepalive, keepaliveMoments]
  generalize m.elapse env = r at *
  dsimp only
  split
  · have hstaged : Told env h { r with tp := { r.tp with tpPayloadLen := 0 } } :=
      helapse.quiet (.elsewhere (.refl _) rfl rfl rfl rfl rfl (Nat.le_refl _))
    exact (transportSend_told hstaged .keepalive).quiet
      (.printString (.timerMarkSend (.refl _) env) _)
  · exact helapse

theorem timerCheck_told (hm : Told env h m) : Told env (timerMoments env m ++ h) (timerCheck env m) := by
  have hstart : Told env h ((m.elapse env).log (.timerCheck (m.elapse env).ticks)) :=
    hm.quiet (.elsewhere (.elapse (.refl m) env) rfl rfl rfl rfl rfl (Nat.le_refl _))
  rw [timerCheck, timerMoments]
  generalize (m.elapse env).log (.timerCheck (m.elapse env).ticks) = r at *
  cases hstate : r.wgState with
  | idle => exact hstart
  | hsSent => exact hstart.quiet (.timerCheckHandshake (.refl _) env)
  | active =>
    rw [if_pos rfl, activeMoments]
    dsimp only
    rw [timerCheckActive]
    split
    · exact hstart.quiet (.printString (.sessionReset (.refl _) env) _)
    · rw [List.append_assoc]
      exact checkKeepalive_told (hstart.look hstate)

theorem handleType2_told (hm : Told env h m) :
    Told env (type2Moments env m ++ h) (handleType2 env m) := by
  rw [handleType2, type2Moments]
  split
  · have hcall : Told env h (callHsProcessResponse env m).2 :=
      hm.quiet (.elsewhere (.refl m) rfl rfl rfl rfl rfl (Nat.le_refl _))
    generalize callHsProcessResponse env m = r at *
    dsimp only
    split
    · exact hcall.accepted
    · exact hcall.quiet (.printString (.sessionReset (.refl _) env) _)
  · exact hm

theorem sessionHandlePacket_told (hm : Told env h m) :
    Told env (packetMoments env m ++ h) (sessionHandlePacket env m) := by
  have hready : Told env h { m with udp := { m.udp with udpRecvReady := false } } :=
    hm.quiet (.elsewhere (.refl m) rfl rfl rfl rfl rfl (Nat.le_refl _))
  rw [sessionHandlePacket, packetMoments]
  dsimp only
  split_ifs
  · exact handleType2_told hready
  · exact hready.quiet (.handleType3 (.refl _) env)
  · exact hready.quiet (.handleType4 (.refl _) env)
  · exact hready

theorem pollAndHandle_told (hm : Told env h m) :
    Told env (pollMoments env m ++ h) (pollAndHandle env m) := by
  have hstart := hm.quiet (.elapse (.refl m) env)
  rw [pollAndHandle, pollMoments]
  generalize m.elapse env = r at *
  have hpoll : Told env h { r with
      world := (env.net.netPoll r.netUdpDest r.udp r.world).1
      udp := (env.net.netPoll r.netUdpDest r.udp r.world).2 } :=
    hstart.quiet (.elsewhere (.refl r) rfl rfl rfl rfl rfl (Nat.le_refl _))
  dsimp only
  split_ifs
  · exact sessionHandlePacket_told hpoll
  · exact hpoll
  · exact hstart

theorem runCommand_told (hm : Told env h m) (c : Command) :
    Told env (commandMoments env m c ++ h) (runCommand env m c) := by
  cases c with
  | quit => exact hm.quiet (.netUdpClose (.refl m) env)
  | netInit => exact hm.quiet (.doNetInit (.refl m) env)
  | handshake => exact hm.quiet (.handshake (.refl m) env)
  | loadConfig => exact hm.quiet (.doLoadConfig (.refl m) env)
  | sendTest =>
    have hstaged : Told env h { m with
        tp := { m.tp with tpPayloadPtr := .testPayload, tpPayloadLen := 15 } } :=
      hm.quiet (.elsewhere (.refl m) rfl rfl rfl rfl rfl (Nat.le_refl _))
    exact (transportSend_told hstaged .sendTest).quiet (.printString (.refl _) _)
  | ping =>
    rw [runCommand, commandMoments, doPing]
    split
    · have hstaged : Told env h (stageIpPacket { m with ip := icmpBuildEcho m.cfg m.ip }) :=
        hm.quiet (.elsewhere (.refl m) rfl rfl rfl rfl rfl (Nat.le_refl _))
      exact (transportSend_told hstaged .ping).quiet (.printString (.timerMarkSend (.refl _) env) _)
    · exact hm.quiet (.printString (.refl m) _)
  | message =>
    rw [runCommand, commandMoments, doMessageInput]
    split
    · have hline := hm.quiet (.readInputLine (.printString (.refl m) .msgPrompt) env)
      generalize readInputLine env (m.printString .msgPrompt) = r at *
      have hstaged : Told env h (stageIpPacket { r with
          ip := udpTunnelBuild env.build (.ipPacketBuf ipUdpHdrLen) r.ip.msgInputLen r.cfg r.ip }) :=
        hline.quiet (.elsewhere (.refl r) rfl rfl rfl rfl rfl (Nat.le_refl _))
      have hsend := transportSend_told hstaged .message
      dsimp only
      generalize transportSend env .message _ = q at *
      split
      · exact hsend.quiet (.msgSendFail (.refl _) env)
      · exact hsend.quiet (.printString (.timerMarkSend (.refl _) env) _)
    · exact hm.quiet (.printString (.refl m) _)

theorem mainLoop_told (hm : Told env h m) : Told env (loopMoments env m ++ h) (mainLoop env m).1 := by
  have htimed := timerCheck_told (pollAndHandle_told hm)
  have hget := htimed.quiet (.getCommand (.refl _) env)
  rw [mainLoop, loopMoments]
  generalize getCommand env (timerCheck env (pollAndHandle env m)) = r at *
  cases r.1 with
  | none =>
    rw [List.append_assoc]
    exact hget
  | some c =>
    rw [List.append_assoc, List.append_assoc]
    exact runCommand_told hget c

theorem run_told (hm : Told env h m) (n : Nat) : Told env (runMoments env n m ++ h) (run env n m) := by
  induction n generalizing h m with
  | zero => exact hm
  | succ n ih =>
    have hloop := mainLoop_told hm
    rw [run, runMoments]
    split
    · rw [List.append_assoc]
      exact ih hloop
    · exact hloop

theorem start_told (env : Env σ) (b2sKeyLen : UInt8) (world : σ) (ticks : Nat) :
    Told env [] (Machine.start b2sKeyLen world ticks) where
  past := .nil
  now :=
    { pending := iff_of_false Bool.false_ne_true fun h => by
        obtain ⟨x, hx, -⟩ := h
        exact absurd hx List.not_mem_nil
      counter := fun _ => by
        have hzero : le (Machine.start b2sKeyLen world ticks).tp.tpSendCounter = 0 := le_zero
        rw [hzero]
        exact Nat.zero_le _
      clock := (fun hactive => nomatch hactive)
      entered := (fun hactive => nomatch hactive) }

/-! ## The law -/

/-- Within 16 bits the program's comparison finds a rekey due when it is. -/
theorem Flagged.raises_iff {x : Moment σ} (hx : Flagged env h x.machine)
    (hlive : ∀ m, x = .look m → m.wgState = .active) (hexact : x.Exact env) :
    (x.Raises env → x.Due env) ∧ (x.Due env → x.Within env → x.Raises env) := by
  cases x with
  | accepted m => exact ⟨id, fun hdue _ => hdue⟩
  | encrypt m => exact ⟨id, fun hdue _ => hdue⟩
  | look m =>
    obtain ⟨hcell, hle⟩ := hx.clock (hlive m rfl)
    have hcmp : (Moment.look m).Raises env ↔
        7200 ≤ lowDifference (m.elapse env).ticks (latestStart m.trace) := by
      have hclock : (m.elapse env).jiffy = jiffyAt (m.elapse env).ticks := rfl
      change m.timer.sessionStartJiffy = _ at hcell
      rw [Moment.Raises, hcell, hclock, timerElapsedCmp_eq, decide_eq_true_iff]
      exact Iff.rfl
    have hlater : latestStart m.trace ≤ (m.elapse env).ticks :=
      hle.trans (Nat.le_add_right _ _)
    -- the comparison is right below 65536 ticks, and from there on a rekey is due anyway
    have hright : sessionTicks env m < 65536 →
        (7200 ≤ lowDifference (m.elapse env).ticks (latestStart m.trace) ↔
          7200 ≤ sessionTicks env m) := fun hlt =>
      (lowDifference_exact_iff hlater (hlt.trans (by decide)) (by decide)).mpr (hexact hlt)
    rw [hcmp]
    refine ⟨fun hraises => ?_, fun hdue hwithin => (hright hwithin).mpr hdue⟩
    by_cases hlt : sessionTicks env m < 65536
    · exact (hright hlt).mp hraises
    · change 7200 ≤ sessionTicks env m
      omega

/-- In the first session to raise the flag, it is up when a moment of that session has raised it. -/
theorem Flagged.session {since older : List (Moment σ)} {begun : Machine σ}
    (hm : Flagged env (since ++ .accepted begun :: older) m) (hnone : ∀ x ∈ older, ¬ x.Raises env) :
    m.timer.rekeyPending = true ↔ ∃ x ∈ since, x.Raises env := by
  rw [hm.pending]
  constructor
  · rintro ⟨x, hx, hraises⟩
    rcases List.mem_append.mp hx with hx | hx
    · exact ⟨x, hx, hraises⟩
    · rcases List.mem_cons.mp hx with rfl | hx
      · exact hraises.elim
      · exact absurd hraises (hnone x hx)
  · rintro ⟨x, hx, hraises⟩
    exact ⟨x, List.mem_append_left _ hx, hraises⟩

/-- The newest session begun. -/
theorem exists_newest {begun : Machine σ} (hmem : .accepted begun ∈ h) :
    ∃ since begun older, h = since ++ .accepted begun :: older ∧ NoneAccepted since := by
  induction h with
  | nil => exact absurd hmem List.not_mem_nil
  | cons x h ih =>
    by_cases hx : ∃ begun, x = .accepted begun
    · obtain ⟨begun, rfl⟩ := hx
      exact ⟨[], begun, h, rfl, fun _ => List.not_mem_nil⟩
    · have hlater := (List.mem_cons.mp hmem).resolve_left fun heq => hx ⟨begun, heq.symm⟩
      obtain ⟨since, begun, older, rfl, hnone⟩ := ih hlater
      refine ⟨x :: since, begun, older, rfl, fun begun hin => ?_⟩
      rcases List.mem_cons.mp hin with heq | hin
      · exact hx ⟨begun, heq.symm⟩
      · exact hnone begun hin

/-- What a machine is found to be at a moment, or at the end. -/
theorem Told.finds (hm : Told env h m) {before : List (Moment σ)} {found : Machine σ}
    (hfinds : Finds h m before found) :
    ∃ newer, h = newer ++ before ∧ Flagged env before found := by
  rcases hfinds with ⟨rfl, rfl⟩ | ⟨newer, x, rfl, rfl⟩
  · exact ⟨[], rfl, hm.now⟩
  · exact ⟨newer ++ [x], by simp, hm.past.split.2.1⟩

/-- The moments of a history compare as they should when they are exact. -/
theorem History.raises_iff (hh : History env h) {x : Moment σ} (hx : x ∈ h) (hexact : x.Exact env) :
    (x.Raises env → x.Due env) ∧ (x.Due env → x.Within env → x.Raises env) := by
  obtain ⟨newer, before, rfl⟩ := List.append_of_mem hx
  obtain ⟨-, hfound, hlive⟩ := hh.split
  exact hfound.raises_iff hlive hexact

/-- The flag tells of the sessions of a run that raise it in the last of them only. -/
theorem Told.signals (hm : Told env h m) (hexact : ∀ x ∈ h, x.Exact env)
    (hlast : FirstRaisedLast env h) : Signals env h m where
  entered before found hfinds hactive := by
    obtain ⟨-, -, hfound⟩ := hm.finds hfinds
    obtain ⟨begun, hbegun⟩ := hfound.entered hactive
    exact exists_newest hbegun
  lowered begun hbegun := by
    obtain ⟨newer, before, rfl⟩ := List.append_of_mem hbegun
    obtain ⟨-, hfound, -⟩ := hm.past.split
    rw [← Bool.not_eq_true]
    intro hup
    obtain ⟨x, hx, hraises⟩ := hfound.pending.mp hup
    exact hlast newer begun before rfl x hx hraises
  session since begun older found hfinds _ _ := by
    obtain ⟨newer, hsplit, hfound⟩ := hm.finds hfinds
    have hnone : ∀ x ∈ older, ¬ x.Raises env := by
      refine hlast (newer ++ since) begun older ?_
      rw [hsplit, List.append_assoc]
    have hmem : ∀ x ∈ since, x ∈ h := fun x hx => by
      rw [hsplit]
      exact List.mem_append_right _ (List.mem_append_left _ hx)
    rw [hfound.session hnone]
    constructor
    · rintro ⟨x, hx, hdue, hwithin⟩
      exact ⟨x, hx, (hm.past.raises_iff (hmem x hx) (hexact x (hmem x hx))).2 hdue hwithin⟩
    · rintro ⟨x, hx, hraises⟩
      exact ⟨x, hx, (hm.past.raises_iff (hmem x hx) (hexact x (hmem x hx))).1 hraises⟩
  printed newer look since begun older hsplit _ hnotdue hdue hwithin := by
    have hhistory := hm.past
    rw [hsplit] at hhistory
    obtain ⟨-, hfound, -⟩ := hhistory.split
    have hnone : ∀ x ∈ older, ¬ x.Raises env := by
      refine hlast (newer ++ .look look :: since) begun older ?_
      rw [hsplit, List.append_assoc]
      rfl
    have hmem : ∀ x ∈ .look look :: since, x ∈ h := fun x hx => by
      rw [hsplit]
      refine List.mem_append_right _ ?_
      rcases List.mem_cons.mp hx with rfl | hx
      · exact List.mem_cons_self
      · exact List.mem_cons_of_mem _ (List.mem_append_left _ hx)
    have hdown : ¬ look.timer.rekeyPending = true := by
      intro hup
      obtain ⟨x, hx, hraises⟩ := (hfound.session hnone).mp hup
      have hin := hmem x (List.mem_cons_of_mem _ hx)
      exact hnotdue x hx ((hm.past.raises_iff hin (hexact x hin)).1 hraises)
    have hin := hmem (.look look) List.mem_cons_self
    have hraises := (hm.past.raises_iff hin (hexact _ hin)).2 hdue hwithin
    rcases checkRekey_cases env look with ⟨hup, -⟩ | ⟨-, ⟨-, hup, hprint⟩ | ⟨hnot, -⟩⟩
    · exact absurd hup hdown
    · exact ⟨hup, hprint⟩
    · exact absurd hraises hnot

/-- A flag that tells was down whenever a session began. -/
theorem Told.firstRaisedLast (hm : Told env h m) (hsignals : Signals env h m) :
    FirstRaisedLast env h := by
  intro newer begun older hsplit x hx hraises
  have hhistory := hm.past
  rw [hsplit] at hhistory
  obtain ⟨-, hfound, -⟩ := hhistory.split
  have hdown := hsignals.lowered begun (by
    rw [hsplit]
    exact List.mem_append_right _ List.mem_cons_self)
  have hup : begun.timer.rekeyPending = true := hfound.pending.mpr ⟨x, hx, hraises⟩
  rw [hdown] at hup
  exact absurd hup Bool.false_ne_true

/-- **What `rekey_pending` tells.** In every run in which the 16-bit comparison of `@check_rekey` is
right within its range, the flag tells of each session if and only if no session begins after it was
first raised: nothing lowers it. -/
theorem run_signals (env : Env σ) (b2sKeyLen : UInt8) (world : σ) (ticks n : Nat)
    (hexact : ∀ x ∈ runMoments env n (Machine.start b2sKeyLen world ticks), x.Exact env) :
    Signals env (runMoments env n (Machine.start b2sKeyLen world ticks))
        (run env n (Machine.start b2sKeyLen world ticks)) ↔
      FirstRaisedLast env (runMoments env n (Machine.start b2sKeyLen world ticks)) := by
  have hrun := run_told (start_told env b2sKeyLen world ticks) n
  rw [List.append_nil] at hrun
  exact ⟨hrun.firstRaisedLast, hrun.signals hexact⟩

/-! ## Two sessions -/

/-- The poll that brings a response which is accepted. -/
theorem pollAndHandle_accepts {udp : UdpRecv} (hinit : m.netInitialized = true)
    (hstate : m.wgState = .hsSent)
    (hpoll : ∀ udp', (env.net.netPoll m.netUdpDest udp' (m.elapse env).world).2 = udp)
    (hready : udp.udpRecvReady = true) (hbyte : byte udp.udpRecvBuf 0 = 2)
    (hok : (hsProcessResponse env.prims
      { m.hs with hsRespPacket := slice udp.udpRecvBuf 0 92 }).1 = true) :
    ∃ begun, pollMoments env m = [.accepted begun] ∧
      pollAndHandle env m = enterActive env begun ∧ begun.ticks = (m.elapse env).ticks := by
  let polled : Machine σ := { m.elapse env with
    world := (env.net.netPoll m.netUdpDest m.udp (m.elapse env).world).1
    udp := { udp with udpRecvReady := false } }
  have hpacket : (env.net.netPoll m.netUdpDest m.udp (m.elapse env).world).2 = udp := hpoll m.udp
  have hcall : (callHsProcessResponse env polled).1 = true := hok
  refine ⟨(callHsProcessResponse env polled).2, ?_, ?_, rfl⟩
  · have htype2 : pollMoments env m = type2Moments env polled := by
      have hdest : (m.elapse env).netUdpDest = m.netUdpDest := rfl
      have hudp : (m.elapse env).udp = m.udp := rfl
      have hup : (m.elapse env).netInitialized = true := hinit
      simp only [pollMoments, if_pos hup, hdest, hudp, hpacket, if_pos hready, packetMoments,
        if_pos hbyte]
      rfl
    rw [htype2, type2Moments, if_pos (show polled.wgState = .hsSent from hstate)]
    exact if_pos hcall
  · have htype2 : pollAndHandle env m = handleType2 env polled := by
      have hdest : (m.elapse env).netUdpDest = m.netUdpDest := rfl
      have hudp : (m.elapse env).udp = m.udp := rfl
      have hup : (m.elapse env).netInitialized = true := hinit
      simp only [pollAndHandle, if_pos hup, hdest, hudp, hpacket, if_pos hready,
        sessionHandlePacket, if_pos hbyte]
      rfl
    rw [htype2, handleType2_accepts env (m := polled) hstate hok]
    rfl

/-- An iteration in which `H` is pressed. -/
theorem loopMoments_handshake (hkey : (commandPoint env m).1 = some .handshake) :
    loopMoments env m = timerMoments env (pollAndHandle env m) ++ pollMoments env m := by
  rw [commandPoint] at hkey
  simp only [loopMoments, hkey]
  rfl

/-- `I` once and `H` from then on. Five thousand jiffies pass at every step. -/
def hurriedHost : Host Nat where
  elapse w := (w, 5000)
  readReg _ w := (w, 0)
  getin w := (w + 1, if w = 0 then 0x49 else 0x48)
  getinLine w := (w, [])
  readConfig w := (w, none)

/-- An adapter that brings one packet once two keys were pressed, and one once three were. -/
def answering (first second : UdpRecv) : Env Nat where
  prims := rfcPrims
  net :=
    { netInit := fun w => (w, false)
      netDhcpAcquire := fun w => (w, false)
      netUdpListen := fun w => (w, false)
      netPoll := fun _ udp w => (w, if w = 2 then first else if w = 3 then second else udp)
      netUdpSend := fun _ _ w => (w, false)
      netUdpClose := fun w => w
      netLastError := fun _ => 0 }
  host := hurriedHost
  build := scripted.build

/-- Waiting for the first response. -/
@[irreducible] def called : Machine Nat := run (answering .start .start) 2 (Machine.start 0 0 0)

theorem called_facts :
    called.wgState = .hsSent ∧ called.netInitialized = true ∧ called.world = 2 ∧
      called.ticks = 50000 := by
  rw [called]
  decide +kernel

/-- An iteration does not look at packets to come later. -/
theorem commandPoint_answering (first second first' second' : UdpRecv) {m : Machine Nat}
    (h : m.world < 2 ∨ m.world = 2 ∧ first' = first) :
    commandPoint (answering first' second') m = commandPoint (answering first second) m := by
  refine commandPoint_withPoll (answering first second)
    (fun _ udp w => (w, if w = 2 then first' else if w = 3 then second' else udp)) fun _ => ?_
  have hworld : (m.elapse (answering first second)).world = m.world := rfl
  rw [← hworld] at h
  generalize m.elapse (answering first second) = r at *
  have h₃ : r.world ≠ 3 := by omega
  rcases h with hlt | ⟨h₂, rfl⟩
  · have h₂ : r.world ≠ 2 := by omega
    simp only [answering, if_neg h₂, if_neg h₃]
  · simp only [answering, if_pos h₂]

/-- Before two keys were pressed a poll brings nothing. -/
theorem pollAndHandle_before (first second : UdpRecv) {m : Machine Nat} (h : m.world < 2)
    (hready : m.udp.udpRecvReady = false) :
    pollMoments (answering first second) m = [] ∧
      (pollAndHandle (answering first second) m).wgState = m.wgState := by
  have hpoll : ∀ dest udp, (answering first second).net.netPoll dest udp m.world = (m.world, udp) := by
    intro dest udp
    have h₂ : m.world ≠ 2 := by omega
    have h₃ : m.world ≠ 3 := by omega
    simp only [answering, if_neg h₂, if_neg h₃]
  have hworld : (m.elapse (answering first second)).world = m.world := rfl
  have hudp : (m.elapse (answering first second)).udp = m.udp := rfl
  have hstate : (m.elapse (answering first second)).wgState = m.wgState := rfl
  rw [pollMoments, pollAndHandle]
  generalize m.elapse (answering first second) = m' at *
  rw [← hudp] at hready
  rw [← hworld] at hpoll
  simp only [hpoll, hready, Bool.false_eq_true, if_false, ite_self]
  exact ⟨trivial, hstate⟩

/-- In `IDLE` the timers and a command that sends no packet find no moment. -/
theorem loopMoments_idle (hpoll : pollMoments env m = [])
    (hidle : (pollAndHandle env m).wgState = .idle)
    (hkey : (commandPoint env m).1 = some .netInit ∨ (commandPoint env m).1 = some .handshake) :
    loopMoments env m = [] := by
  have htimed : timerMoments env (pollAndHandle env m) = [] :=
    if_neg fun hactive => absurd (hidle.symm.trans hactive) (by decide)
  rw [commandPoint] at hkey
  rcases hkey with hkey | hkey
  · simp only [loopMoments, hkey, htimed, hpoll]
    rfl
  · simp only [loopMoments, hkey, htimed, hpoll]
    rfl

/-- An iteration that gives a command other than `Q`, and the rest. -/
theorem runMoments_command {c : Command} (hkey : (commandPoint env m).1 = some c)
    (hgo : c ≠ .quit) (n : Nat) :
    runMoments env (n + 1) m = runMoments env n (mainLoop env m).1 ++ loopMoments env m ∧
      run env (n + 1) m = run env n (mainLoop env m).1 := by
  have htrue : (mainLoop env m).2 = true := by
    rw [mainLoop_command hkey]
    exact decide_eq_true hgo
  rw [runMoments, run, if_pos htrue, if_pos htrue]
  exact ⟨rfl, rfl⟩

/-- An iteration before two keys were pressed. -/
theorem answering_step (first second : UdpRecv) {m : Machine Nat} (hworld : m.world < 2)
    (hready : m.udp.udpRecvReady = false) (hidle : m.wgState = .idle)
    (hkey : (commandPoint (answering .start .start) m).1 = some .netInit ∨
      (commandPoint (answering .start .start) m).1 = some .handshake) (n : Nat) :
    runMoments (answering first second) (n + 1) m =
        runMoments (answering first second) n (mainLoop (answering .start .start) m).1 ∧
      run (answering first second) (n + 1) m =
        run (answering first second) n (mainLoop (answering .start .start) m).1 := by
  have hsame := commandPoint_answering .start .start first second (.inl hworld)
  have hloop : mainLoop (answering first second) m = mainLoop (answering .start .start) m :=
    mainLoop_withPoll (answering .start .start) _ hsame
  rw [← hsame] at hkey
  obtain ⟨hpoll, hstate⟩ := pollAndHandle_before first second hworld hready
  have hnone := loopMoments_idle hpoll (hstate.trans hidle) hkey
  have hgo : ∃ c, (commandPoint (answering first second) m).1 = some c ∧ c ≠ .quit := by
    rcases hkey with hkey | hkey
    · exact ⟨_, hkey, by decide⟩
    · exact ⟨_, hkey, by decide⟩
  obtain ⟨c, hc, hquit⟩ := hgo
  obtain ⟨hmoments, hrun⟩ := runMoments_command hc hquit n
  rw [hmoments, hrun, hnone, hloop, List.append_nil]
  exact ⟨rfl, rfl⟩

/-- The first two iterations: `I` and `H`. -/
theorem answering_called (first second : UdpRecv) (n : Nat) :
    runMoments (answering first second) (n + 2) (Machine.start 0 0 0) =
        runMoments (answering first second) n called ∧
      run (answering first second) (n + 2) (Machine.start 0 0 0) =
        run (answering first second) n called := by
  have hup : (commandPoint (answering .start .start) (Machine.start 0 0 0)).1 = some .netInit := by
    decide +kernel
  obtain ⟨hmoments, hrun⟩ := answering_step first second (m := Machine.start 0 0 0) (by decide) rfl rfl
    (.inl hup) (n + 1)
  have hstart : run (answering .start .start) 2 (Machine.start 0 0 0) =
      run (answering .start .start) 1 (mainLoop (answering .start .start) (Machine.start 0 0 0)).1 :=
    (runMoments_command hup (by decide) 1).2
  have hnext : let m := (mainLoop (answering .start .start) (Machine.start 0 0 0)).1
      m.world < 2 ∧ m.udp.udpRecvReady = false ∧ m.wgState = .idle ∧
        (commandPoint (answering .start .start) m).1 = some .handshake := by
    decide +kernel
  rw [hmoments, hrun, called, hstart]
  generalize (mainLoop (answering .start .start) (Machine.start 0 0 0)).1 = m at *
  obtain ⟨hworld, hready, hidle, hkey⟩ := hnext
  rw [run_one]
  exact answering_step first second hworld hready hidle (.inr hkey) n

theorem keepaliveMoments_encrypt (env : Env σ) (m : Machine σ) :
    ∀ x ∈ keepaliveMoments env m, ∃ m', x = .encrypt m' := by
  intro x hx
  rw [keepaliveMoments, sendMoments] at hx
  split_ifs at hx
  · exact absurd hx List.not_mem_nil
  · exact ⟨_, List.mem_singleton.mp hx⟩
  · exact absurd hx List.not_mem_nil

/-- A session that begins at 60000 jiffies is first checked at 70000: two minutes have gone by. -/
theorem answering_look (first second : UdpRecv) {begun : Machine Nat}
    (hticks : begun.ticks = 55000) :
    ∃ sent look, timerMoments (answering first second) (enterActive (answering first second) begun) =
        sent ++ [.look look] ∧ (∀ x ∈ sent, ∃ m, x = .encrypt m) ∧
      (Moment.look look).Raises (answering first second) ∧
      (Moment.look look).Exact (answering first second) := by
  let entered := (enterActive (answering first second) begun).elapse (answering first second)
  let look := entered.log (.timerCheck entered.ticks)
  have hnow : look.jiffy = jiffyAt 65000 := congrArg (fun t => jiffyAt (t + 5000 + 5000)) hticks
  have hlater : (look.elapse (answering first second)).ticks = 70000 :=
    congrArg (fun t => t + 5000 + 5000 + 5000) hticks
  have hstart : latestStart look.trace = 60000 := congrArg (fun t => t + 5000) hticks
  have hcell : look.timer.sessionStartJiffy = jiffyAt 60000 :=
    congrArg (fun t => jiffyAt (t + 5000)) hticks
  have hstate : look.wgState = .active := rfl
  have hactive : timerMoments (answering first second) (enterActive (answering first second) begun) =
      activeMoments (answering first second) look := by
    rw [timerMoments]
    exact if_pos hstate
  rw [hactive]
  generalize look = look at *
  have hlive : ¬ timerElapsedCmp look.jiffy look.timer.sessionStartJiffy 0x30 0x2a = true := by
    rw [hnow, hcell]
    decide
  refine ⟨_, look, if_neg hlive, keepaliveMoments_encrypt _ _, ?_, fun _ => ?_⟩
  · have hclock : (look.elapse (answering first second)).jiffy = jiffyAt 70000 :=
      congrArg jiffyAt hlater
    rw [Moment.Raises, hclock, hcell]
    decide
  · rw [hlater, hstart, ComparesExactly]
    decide

/-- The response to the machine, in the poll after two keys or in the one after three. -/
theorem answering_accepts (first second : UdpRecv) {m : Machine Nat}
    (hinit : m.netInitialized = true) (hstate : m.wgState = .hsSent)
    (hpacket : m.world = 2 ∧ first = scriptedResponse m.hs ∨
      m.world = 3 ∧ second = scriptedResponse m.hs) :
    ∃ begun, pollMoments (answering first second) m = [.accepted begun] ∧
      pollAndHandle (answering first second) m = enterActive (answering first second) begun ∧
      begun.ticks = m.ticks + 5000 := by
  have hpoll : ∀ udp, ((answering first second).net.netPoll m.netUdpDest udp
      (m.elapse (answering first second)).world).2 = scriptedResponse m.hs := by
    intro udp
    have hworld : (m.elapse (answering first second)).world = m.world := rfl
    rcases hpacket with ⟨hkeys, rfl⟩ | ⟨hkeys, rfl⟩
    · rw [hworld, hkeys]
      rfl
    · rw [hworld, hkeys]
      rfl
  exact pollAndHandle_accepts hinit hstate hpoll rfl (byte_taggedResponse _)
    ((hsProcessResponse_taggedResponse m.hs _).mpr rfl)

/-- What the polls bring depends on nothing but the keys. -/
theorem answering_preserves (first second : UdpRecv) (keys : Nat) :
    (answering first second).Preserves fun w up => w = keys ∧ up = true where
  online h := ⟨h.1, rfl⟩
  netInit h := h
  netDhcpAcquire h := h
  netUdpListen h := h
  netPoll _ _ h := h
  netUdpSend _ _ h := h
  netUdpClose h := h
  elapse h := h
  readReg _ h := h
  getinLine h := h
  readConfig h := h

/-- Its key is `H`. -/
theorem answering_key (first second : UdpRecv) {m : Machine Nat} (hinit : m.netInitialized = true)
    (hworld : m.world = 2) :
    (commandPoint (answering first second) m).1 = some .handshake ∧
      (commandPoint (answering first second) m).2.world = 3 ∧
      (commandPoint (answering first second) m).2.netInitialized = true := by
  have hI := answering_preserves first second 2
  have hpoint := hI.timerCheck (hI.pollAndHandle (m := m) ⟨hworld, hinit⟩)
  rw [commandPoint]
  generalize timerCheck (answering first second) (pollAndHandle (answering first second) m) = r at *
  obtain ⟨hr, hup⟩ := hpoint
  refine ⟨?_, congrArg (fun w => w + 1) hr, hup⟩
  have hget : (getCommand (answering first second) r).1 =
      commandOf (if r.world = 0 then 0x49 else 0x48) := rfl
  rw [hget, hr]
  decide

theorem handshake_hsSent (first second : UdpRecv) (m : Machine Nat) :
    (runCommand (answering first second) m .handshake).wgState = .hsSent := by
  rw [runCommand, doHandshake, sessionInitiate]
  generalize sessionPrepare (answering first second) _ = r
  have hsent : (sendInitiation (answering first second) r).2 = false := rfl
  rw [hsent, if_neg Bool.false_ne_true]
  rfl

/-- After the third iteration it waits for the second response. -/
theorem answering_again (first second : UdpRecv) {m : Machine Nat} (hinit : m.netInitialized = true)
    (hworld : m.world = 2) :
    mainLoop (answering first second) m = mainLoop (answering first .start) m ∧
      (mainLoop (answering first .start) m).1.wgState = .hsSent ∧
      (mainLoop (answering first .start) m).1.netInitialized = true ∧
      (mainLoop (answering first .start) m).1.world = 3 := by
  have hsame := commandPoint_answering first .start first second (m := m) (.inr ⟨hworld, rfl⟩)
  obtain ⟨hkey, hthree, hup⟩ := answering_key first .start hinit hworld
  have hkeep := (answering_preserves first .start 3).runCommand
    (m := (commandPoint (answering first .start) m).2) ⟨hthree, hup⟩ .handshake
  refine ⟨mainLoop_withPoll (answering first .start) _ hsame, ?_⟩
  rw [mainLoop_command hkey]
  exact ⟨handshake_hsSent _ _ _, hkeep.2, hkeep.1⟩

/-- What the third iteration finds: a session begins, and its first check finds a rekey due. -/
theorem answering_third {first : UdpRecv} (hfirst : first = scriptedResponse called.hs)
    (second : UdpRecv) :
    ∃ begun sent look, loopMoments (answering first second) called =
        sent ++ .look look :: [.accepted begun] ∧
      (∀ x ∈ sent, ∃ m, x = .encrypt m) ∧ (Moment.look look).Raises (answering first second) ∧
      (Moment.look look).Exact (answering first second) := by
  obtain ⟨hstate, hinit, hworld, hticks⟩ := called_facts
  generalize called = m at *
  obtain ⟨begun, hpolled, hbegun, hclock⟩ :=
    answering_accepts first second hinit hstate (.inl ⟨hworld, hfirst⟩)
  obtain ⟨hkey, -⟩ := answering_key first second hinit hworld
  rw [hticks] at hclock
  obtain ⟨sent, look, htimed, hsent, hlook⟩ := answering_look first second hclock
  refine ⟨begun, sent, look, ?_, hsent, hlook⟩
  rw [loopMoments_handshake hkey, hpolled, hbegun, htimed, List.append_assoc]
  rfl

theorem loopMoments_polled (env : Env σ) (m : Machine σ) :
    ∃ newer, loopMoments env m = newer ++ pollMoments env m := by
  rw [loopMoments]
  generalize getCommand env (timerCheck env (pollAndHandle env m)) = r
  cases r.1 with
  | none => exact ⟨_, rfl⟩
  | some c => exact ⟨_, rfl⟩

/-- What the fourth finds first: another session begins. -/
theorem answering_fourth {first second : UdpRecv}
    (hsecond : second = scriptedResponse (mainLoop (answering first .start) called).1.hs) :
    ∃ newer begun, loopMoments (answering first second) (mainLoop (answering first second) called).1 =
      newer ++ [.accepted begun] := by
  obtain ⟨-, hinit, hworld, -⟩ := called_facts
  obtain ⟨hsame, hstate, hup, hthree⟩ := answering_again first second hinit hworld
  rw [hsame]
  generalize (mainLoop (answering first .start) called).1 = m at *
  obtain ⟨begun, hpolled, -⟩ := answering_accepts first second hup hstate (.inr ⟨hthree, hsecond⟩)
  obtain ⟨newer, hnewer⟩ := loopMoments_polled (answering first second) m
  rw [hpolled] at hnewer
  exact ⟨newer, begun, hnewer⟩

theorem runMoments_one (env : Env σ) (m : Machine σ) : runMoments env 1 m = loopMoments env m := by
  rw [runMoments]
  exact congrArg (· ++ _) (ite_self _)

/-- The response to the first call, and the one to the call in the session. -/
def answered : Env Nat :=
  let first := scriptedResponse called.hs
  answering first (scriptedResponse (mainLoop (answering first .start) called).1.hs)

/-- The two sessions, in the order of the moments. -/
theorem answering_moments {first second : UdpRecv} (hfirst : first = scriptedResponse called.hs)
    (hsecond : second = scriptedResponse (mainLoop (answering first .start) called).1.hs) :
    ∃ newer again sent look begun,
      runMoments (answering first second) 4 (Machine.start 0 0 0) =
        newer ++ .accepted again :: (sent ++ .look look :: [.accepted begun]) ∧
      runMoments (answering first second) 3 (Machine.start 0 0 0) =
        (sent ++ [.look look]) ++ [.accepted begun] ∧
      (∀ x ∈ sent, ∃ m, x = .encrypt m) ∧ (Moment.look look).Raises (answering first second) ∧
      (Moment.look look).Exact (answering first second) := by
  obtain ⟨-, hinit, hworld, -⟩ := called_facts
  obtain ⟨hkey, -⟩ := answering_key first second hinit hworld
  obtain ⟨begun, sent, look, hthird, hlook⟩ := answering_third hfirst second
  obtain ⟨newer, again, hfourth⟩ := answering_fourth hsecond
  refine ⟨newer, again, sent, look, begun, ?_, ?_, hlook⟩
  · rw [(answering_called first second 2).1, (runMoments_command hkey (by decide) 1).1,
      runMoments_one, hfourth, hthird, List.append_assoc]
    rfl
  · rw [(answering_called first second 1).1, runMoments_one, hthird, List.append_assoc]
    rfl

/-- **A flag that tells of the session before.** The first session is two minutes old at its first
check, and `H` begins a second one: it finds the flag up. -/
theorem run_signals_stale :
    ¬ Signals answered (runMoments answered 4 (Machine.start 0 0 0))
      (run answered 4 (Machine.start 0 0 0)) := by
  intro hsignals
  have hrun := run_told (start_told answered 0 0 0) 4
  rw [List.append_nil] at hrun
  have hlast := hrun.firstRaisedLast hsignals
  obtain ⟨newer, again, sent, look, begun, hmoments, -, -, hraises, -⟩ := answering_moments rfl rfl
  exact hlast newer again _ hmoments _ (List.mem_append_right _ List.mem_cons_self) hraises

/-- A run with one session tells of it. -/
theorem firstRaisedLast_once {newer : List (Moment σ)} (hnone : NoneAccepted newer)
    (begun : Machine σ) : FirstRaisedLast env (newer ++ [.accepted begun]) := by
  intro since m older hsplit
  rcases List.eq_nil_or_concat older with rfl | ⟨older, last, rfl⟩
  · exact fun _ hx => absurd hx List.not_mem_nil
  · have hconcat : (since ++ .accepted m :: older) ++ [last] = newer ++ [.accepted begun] := by
      rw [hsplit]
      simp
    have hsame := List.append_inj_left' hconcat rfl
    exact absurd (hsame ▸ List.mem_append_right _ List.mem_cons_self) (hnone m)

/-- The first session of that run, before the second. -/
theorem run_signals_first :
    Signals answered (runMoments answered 3 (Machine.start 0 0 0))
      (run answered 3 (Machine.start 0 0 0)) := by
  obtain ⟨-, -, sent, look, begun, -, hmoments, hsent, -, hexact⟩ := answering_moments rfl rfl
  change runMoments answered 3 (Machine.start 0 0 0) = _ at hmoments
  have hlast : FirstRaisedLast answered (runMoments answered 3 (Machine.start 0 0 0)) := by
    rw [hmoments]
    refine firstRaisedLast_once (fun m hm => ?_) begun
    rcases List.mem_append.mp hm with hm | hm
    · obtain ⟨m', heq⟩ := hsent _ hm
      exact nomatch heq
    · exact nomatch List.mem_singleton.mp hm
  refine (run_signals answered 0 0 0 3 fun x hx => ?_).mpr hlast
  rw [hmoments] at hx
  rcases List.mem_append.mp hx with hx | hx
  · rcases List.mem_append.mp hx with hx | hx
    · obtain ⟨m, rfl⟩ := hsent _ hx
      trivial
    · rw [List.mem_singleton.mp hx]
      exact hexact
  · rw [List.mem_singleton.mp hx]
    trivial

end C64WireGuard
