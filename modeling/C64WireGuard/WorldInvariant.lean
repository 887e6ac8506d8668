import C64WireGuard.MainLoop

/-!
# What the adapter and the KERNAL keep, the program keeps

The program reaches what lies outside its cells through the entry points of `net_abi.inc` and those of
the KERNAL only. A property of that outside, and of `net_initialized`, that each of them preserves
(`Env.Preserves`) therefore holds in every state that the program's routines lead to, in any order
(`Env.Preserves.roams`).
-/

namespace C64WireGuard

variable {σ : Type}

/-- No entry point breaks the property, nor does the network coming up. `GETIN` is left out: only
the main loop calls it for keys. -/
structure Env.Preserves (env : Env σ) (I : σ → Bool → Prop) : Prop where
  online : ∀ {w b}, I w b → I w true
  netInit : ∀ {w b}, I w b → I (env.net.netInit w).1 b
  netDhcpAcquire : ∀ {w b}, I w b → I (env.net.netDhcpAcquire w).1 b
  netUdpListen : ∀ {w b}, I w b → I (env.net.netUdpListen w).1 b
  netPoll : ∀ {w b} (dest : Endpoint) (udp : UdpRecv), I w b → I (env.net.netPoll dest udp w).1 b
  netUdpSend : ∀ {w b} (dest : Endpoint) (pkt : List UInt8), I w b →
    I (env.net.netUdpSend dest pkt w).1 b
  netUdpClose : ∀ {w b}, I w b → I (env.net.netUdpClose w) b
  elapse : ∀ {w b}, I w b → I (env.host.elapse w).1 b
  readReg : ∀ {w b} (r : Reg), I w b → I (env.host.readReg r w).1 b
  getinLine : ∀ {w b}, I w b → I (env.host.getinLine w).1 b
  readConfig : ∀ {w b}, I w b → I (env.host.readConfig w).1 b

/-- The property of what a machine is attached to. -/
def Machine.Holds (I : σ → Bool → Prop) (m : Machine σ) : Prop := I m.world m.netInitialized

/-! ## The routines -/

/-- The routines that the main loop is made of, and those that call the adapter on its behalf. -/
inductive Routine
  | doNetInit
  | configLoad
  | endpointUpdate
  | sessionInitiate
  | sessionReset
  | transportSend (sender : Sender)
  | sessionHandlePacket
  | pollAndHandle
  | timerCheck
  | getCommand
  | command (c : Command)

/-- Call one. -/
def callRoutine (env : Env σ) (m : Machine σ) : Routine → Machine σ
  | .doNetInit => doNetInit env m
  | .configLoad => (configLoad env m).2
  | .endpointUpdate => endpointUpdate env m
  | .sessionInitiate => sessionInitiate env m
  | .sessionReset => sessionReset env m
  | .transportSend sender => (transportSend env sender m).1
  | .sessionHandlePacket => sessionHandlePacket env m
  | .pollAndHandle => pollAndHandle env m
  | .timerCheck => timerCheck env m
  | .getCommand => (getCommand env m).2
  | .command c => runCommand env m c

/-- The states that the routines lead to, in any order. In between, the program's own cells may take
any value. -/
inductive Roams (env : Env σ) (start : σ) : Machine σ → Prop
  | start {m : Machine σ} (world : m.world = start) : Roams env start m
  | call {m : Machine σ} (h : Roams env start m) (r : Routine) : Roams env start (callRoutine env m r)
  | elsewhere {m m' : Machine σ} (h : Roams env start m) (world : m'.world = m.world) :
      Roams env start m'

namespace Env.Preserves

variable {env : Env σ} {I : σ → Bool → Prop} (hI : env.Preserves I) {m : Machine σ}

include hI

/-! ### Sending and teardown -/

theorem transportSend (h : m.Holds I) (sender : Sender) :
    (transportSend env sender m).1.Holds I := by
  rw [C64WireGuard.transportSend]
  split
  · exact h
  · have hr : (callTransportEncrypt env sender m).1.Holds I := by
      unfold callTransportEncrypt
      dsimp only
      split
      · exact h
      · exact h
    generalize callTransportEncrypt env sender m = r at *
    dsimp only
    split
    · exact hr
    · exact hI.netUdpSend _ _ hr

theorem sessionReset (h : m.Holds I) : (sessionReset env m).Holds I := hI.netUdpClose h

theorem timerMarkSend (h : m.Holds I) : (timerMarkSend env m).Holds I := hI.elapse h

theorem endpointUpdate (h : m.Holds I) : (endpointUpdate env m).Holds I := by
  rw [C64WireGuard.endpointUpdate]
  split
  · exact h
  · exact hI.netUdpClose h

/-! ### Initiating -/

theorem configLoad (h : m.Holds I) : (configLoad env m).2.Holds I := by
  have hload : (loadEndpoint env (loadKeys m)).Holds I := by
    rw [loadEndpoint]
    split
    · exact h
    · exact hI.netUdpClose h
  exact hI.elapse hload

theorem entropyInit (h : m.Holds I) : (entropyInit env m).Holds I :=
  hI.readReg _ (hI.readReg _ (hI.readReg _ (hI.readReg _ (hI.elapse h))))

theorem entropyFill (h : m.Holds I) (n : Nat) (carry : Bool) :
    (entropyFill env n carry m).2.2.Holds I := by
  have hloop : ∀ n filled carry (m : Machine σ), m.Holds I →
      (entropyLoop env n filled carry m).2.2.Holds I := by
    intro n
    induction n with
    | zero => exact fun _ _ m h => h
    | succ n ih =>
      intro filled carry m h
      exact ih _ _ _ (hI.readReg _ (hI.readReg _ h))
  exact hloop n [] carry m h

theorem sessionPrepare (h : m.Holds I) : (sessionPrepare env m).Holds I := by
  have hload := hI.configLoad h
  rw [C64WireGuard.sessionPrepare]
  generalize C64WireGuard.configLoad env m = c at *
  have hpriv := hI.entropyFill hload 32 c.1
  generalize C64WireGuard.entropyFill env 32 c.1 c.2 = priv at *
  exact hI.elapse (hI.entropyFill (m := { priv.2.2 with
    hs := { priv.2.2.hs with hsEphemPriv := priv.1 } }) hpriv 4 priv.2.1)

theorem sessionInitiate (h : m.Holds I) : (sessionInitiate env m).Holds I := by
  have hprepare := hI.sessionPrepare h
  rw [C64WireGuard.sessionInitiate, sendInitiation]
  generalize C64WireGuard.sessionPrepare env m = r at *
  split
  · exact hI.netUdpClose (hI.netUdpSend _ _ hprepare)
  · exact hI.elapse (hI.netUdpSend _ _ hprepare)

/-! ### Receiving -/

theorem handleType2 (h : m.Holds I) : (handleType2 env m).Holds I := by
  rw [C64WireGuard.handleType2]
  split
  · have hcall : (callHsProcessResponse env m).2.Holds I := h
    generalize callHsProcessResponse env m = r at *
    dsimp only
    split
    · exact hI.elapse hcall
    · exact hI.netUdpClose hcall
  · exact h

theorem handleType3 (h : m.Holds I) : (handleType3 env m).Holds I := by
  rw [C64WireGuard.handleType3]
  split
  · have hcall : (callCookieHandleType3 env m).2.Holds I := h
    generalize callCookieHandleType3 env m = r at *
    dsimp only
    split
    · exact hI.sessionInitiate (m := r.2.printString .cookieRecvMsg) hcall
    · exact hcall
  · exact h

theorem handleType4 (h : m.Holds I) : (handleType4 env m).Holds I := by
  have hroute : ∀ m : Machine σ, m.Holds I → (routePayload env m).Holds I := by
    intro m hm
    rw [routePayload, handleIcmp, handleUdp]
    split_ifs
    all_goals exact hm
  rw [C64WireGuard.handleType4]
  split
  · have hcall : (callTransportDecrypt env m).2.Holds I := h
    generalize callTransportDecrypt env m = r at *
    dsimp only
    split
    · exact hroute _ (hI.endpointUpdate hcall)
    · exact hcall
  · exact h

theorem sessionHandlePacket (h : m.Holds I) : (sessionHandlePacket env m).Holds I := by
  rw [C64WireGuard.sessionHandlePacket]
  dsimp only
  split_ifs
  · exact hI.handleType2 (m := { m with udp := _ }) h
  · exact hI.handleType3 (m := { m with udp := _ }) h
  · exact hI.handleType4 (m := { m with udp := _ }) h
  · exact h

theorem pollAndHandle (h : m.Holds I) : (pollAndHandle env m).Holds I := by
  have hstart : (m.elapse env).Holds I := hI.elapse h
  rw [C64WireGuard.pollAndHandle]
  generalize m.elapse env = r at *
  have hpoll := hI.netPoll r.netUdpDest r.udp hstart
  generalize env.net.netPoll r.netUdpDest r.udp r.world = q at *
  dsimp only
  split
  · split
    · exact hI.sessionHandlePacket (m := { r with world := q.1, udp := q.2 }) hpoll
    · exact hpoll
  · exact hstart

/-! ### Timers and commands -/

theorem checkRekey (h : m.Holds I) : (checkRekey env m).Holds I := by
  rw [C64WireGuard.checkRekey]
  split
  · exact h
  · dsimp only
    split
    all_goals exact hI.elapse h

theorem checkKeepalive (h : m.Holds I) : (checkKeepalive env m).Holds I := by
  have helapse : (m.elapse env).Holds I := hI.elapse h
  rw [C64WireGuard.checkKeepalive]
  generalize m.elapse env = r at *
  dsimp only
  split
  · exact hI.timerMarkSend (hI.transportSend (m := { r with
      tp := { r.tp with tpPayloadLen := 0 } }) helapse .keepalive)
  · exact helapse

theorem timerCheck (h : m.Holds I) : (timerCheck env m).Holds I := by
  have hstart : ((m.elapse env).log (.timerCheck (m.elapse env).ticks)).Holds I := hI.elapse h
  rw [C64WireGuard.timerCheck]
  generalize (m.elapse env).log (.timerCheck (m.elapse env).ticks) = r at *
  split
  · exact hstart
  · rw [timerCheckHandshake]
    dsimp only
    split_ifs
    · exact hI.netUdpClose (hI.elapse hstart)
    · exact hI.elapse hstart
    · exact hstart
  · rw [timerCheckActive]
    split
    · exact hI.netUdpClose hstart
    · exact hI.checkKeepalive (hI.checkRekey hstart)

theorem doNetInit (h : m.Holds I) : (doNetInit env m).Holds I := by
  have hinit : I (env.net.netInit (m.printString .netInitMsg).world).1 m.netInitialized :=
    hI.netInit h
  rw [C64WireGuard.doNetInit]
  generalize env.net.netInit (m.printString .netInitMsg).world = r at *
  dsimp only
  split
  · exact hinit
  · have hdhcp := hI.netDhcpAcquire hinit
    change I (env.net.netDhcpAcquire (({ m.printString .netInitMsg with world := r.1 } :
      Machine σ).printString .netDhcpMsg).world).1 m.netInitialized at hdhcp
    generalize env.net.netDhcpAcquire _ = q at *
    split
    · exact hdhcp
    · split
      · exact hI.netUdpListen hdhcp
      · exact hI.online (hI.netUdpListen hdhcp)

theorem doMessageInput (h : m.Holds I) : (doMessageInput env m).Holds I := by
  rw [C64WireGuard.doMessageInput]
  split
  · have hline : (readInputLine env (m.printString .msgPrompt)).Holds I :=
      hI.elapse (hI.getinLine h)
    generalize readInputLine env (m.printString .msgPrompt) = r at *
    have hsend := hI.transportSend (m := stageIpPacket { r with
      ip := udpTunnelBuild env.build (.ipPacketBuf ipUdpHdrLen) r.ip.msgInputLen r.cfg r.ip })
      hline .message
    dsimp only
    generalize C64WireGuard.transportSend env .message _ = q at *
    split
    · exact hsend
    · exact hI.timerMarkSend hsend
  · exact h

theorem runCommand (h : m.Holds I) (c : Command) : (runCommand env m c).Holds I := by
  cases c with
  | quit => exact hI.netUdpClose h
  | netInit => exact hI.doNetInit h
  | handshake =>
    exact hI.sessionInitiate (hI.entropyInit (m := m.printString .hsStartMsg) h)
  | sendTest =>
    exact hI.transportSend (m := { m with
      tp := { m.tp with tpPayloadPtr := .testPayload, tpPayloadLen := 15 } }) h .sendTest
  | ping =>
    rw [C64WireGuard.runCommand, doPing]
    split
    · exact hI.timerMarkSend (hI.transportSend (m := stageIpPacket { m with ip := _ }) h .ping)
    · exact h
  | message => exact hI.doMessageInput h
  | loadConfig => exact hI.readConfig h

/-! ### Any order of them -/

theorem callRoutine (hgetin : ∀ {w b}, I w b → I (env.host.getin w).1 b) (h : m.Holds I)
    (r : Routine) : (callRoutine env m r).Holds I := by
  cases r with
  | doNetInit => exact hI.doNetInit h
  | configLoad => exact hI.configLoad h
  | endpointUpdate => exact hI.endpointUpdate h
  | sessionInitiate => exact hI.sessionInitiate h
  | sessionReset => exact hI.sessionReset h
  | transportSend sender => exact hI.transportSend h sender
  | sessionHandlePacket => exact hI.sessionHandlePacket h
  | pollAndHandle => exact hI.pollAndHandle h
  | timerCheck => exact hI.timerCheck h
  | getCommand => exact hI.elapse (hgetin h)
  | command c => exact hI.runCommand h c

omit hI in
/-- **What holds of the outside at first holds of it for good.** -/
theorem roams {J : σ → Prop} (hJ : env.Preserves fun w _ => J w)
    (hgetin : ∀ {w}, J w → J (env.host.getin w).1) {start : σ} (hstart : J start)
    (h : Roams env start m) : J m.world := by
  induction h with
  | start world => rwa [world]
  | call _ r ih => exact hJ.callRoutine hgetin ih r
  | elsewhere _ world ih => rwa [world]

end Env.Preserves

/-! ## The main loop -/

namespace Roams

variable {env : Env σ} {start : σ} {m : Machine σ}

/-- An iteration of the main loop is such an order of routines. -/
theorem mainLoop (h : Roams env start m) : Roams env start (mainLoop env m).1 := by
  have hstep : Roams env start (getCommand env (timerCheck env (pollAndHandle env m))).2 :=
    ((h.call .pollAndHandle).call .timerCheck).call .getCommand
  rw [C64WireGuard.mainLoop]
  generalize getCommand env (timerCheck env (pollAndHandle env m)) = r at *
  split
  · exact hstep
  · rename_i c hc
    exact hstep.call (.command c)

theorem run (h : Roams env start m) (n : Nat) : Roams env start (run env n m) := by
  induction n generalizing m with
  | zero => exact h
  | succ n ih =>
    rw [C64WireGuard.run]
    split
    · exact ih h.mainLoop
    · exact h.mainLoop

end Roams

end C64WireGuard
