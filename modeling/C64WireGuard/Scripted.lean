import C64WireGuard.Initiator
import C64WireGuard.Rfc
import C64WireGuard.RunLaws

/-!
# Scripted runs

A world that plays back keys and packets, over the primitives as the RFCs define them. Two scripts
show where the laws of `RunLaws` stop: the test command sends without a session, and a line that
takes three minutes to type is sent in a session three minutes old.

Handshakes are not evaluated: the response in the second script is defined from the initiator's
cells, and accepted by `hsProcessResponse_fst`.
-/

namespace C64WireGuard

open Bytes

/-! ## Only the main loop polls -/

section Poll

variable {σ : Type} (env : Env σ) (poll : Endpoint → UdpRecv → σ → σ × UdpRecv)

/-- The same environment with other packets to come. -/
def Env.withPoll : Env σ := { env with net := { env.net with netPoll := poll } }

theorem entropyLoop_withPoll (n : Nat) (filled : List UInt8) (carry : Bool) (m : Machine σ) :
    entropyLoop (env.withPoll poll) n filled carry m = entropyLoop env n filled carry m := by
  induction n generalizing filled carry m with
  | zero => rfl
  | succ n ih =>
      rw [entropyLoop, entropyLoop, ih]
      rfl

theorem sessionPrepare_withPoll (m : Machine σ) :
    sessionPrepare (env.withPoll poll) m = sessionPrepare env m := by
  have hload : configLoad (env.withPoll poll) m = configLoad env m := rfl
  simp only [sessionPrepare, entropyFill, entropyLoop_withPoll, hload]
  rfl

theorem sessionInitiate_withPoll (m : Machine σ) :
    sessionInitiate (env.withPoll poll) m = sessionInitiate env m := by
  rw [sessionInitiate, sessionInitiate, sessionPrepare_withPoll]
  rfl

theorem transportSend_withPoll (sender : Sender) (m : Machine σ) :
    transportSend (env.withPoll poll) sender m = transportSend env sender m := rfl

theorem checkKeepalive_withPoll (m : Machine σ) :
    checkKeepalive (env.withPoll poll) m = checkKeepalive env m := by
  have helapse : m.elapse (env.withPoll poll) = m.elapse env := rfl
  rw [checkKeepalive, checkKeepalive, helapse]
  generalize m.elapse env = m'
  dsimp only
  rw [transportSend_withPoll]
  generalize (transportSend env .keepalive _).1 = m''
  rfl

theorem timerCheck_withPoll (m : Machine σ) :
    timerCheck (env.withPoll poll) m = timerCheck env m := by
  have hactive : ∀ m', timerCheckActive (env.withPoll poll) m' = timerCheckActive env m' := by
    intro m'
    have hrekey : checkRekey (env.withPoll poll) m' = checkRekey env m' := rfl
    have hreset : sessionReset (env.withPoll poll) m' = sessionReset env m' := rfl
    rw [timerCheckActive, timerCheckActive, checkKeepalive_withPoll, hrekey, hreset]
  have hhandshake : ∀ m', timerCheckHandshake (env.withPoll poll) m' = timerCheckHandshake env m' :=
    fun _ => rfl
  have helapse : m.elapse (env.withPoll poll) = m.elapse env := rfl
  simp only [timerCheck, helapse, hactive, hhandshake]

theorem runCommand_withPoll (m : Machine σ) (c : Command) :
    runCommand (env.withPoll poll) m c = runCommand env m c := by
  cases c with
  | handshake => exact sessionInitiate_withPoll env poll _
  | quit => rfl
  | netInit => rfl
  | sendTest =>
      rw [runCommand, runCommand, doSendTest, doSendTest, transportSend_withPoll]
  | ping =>
      have hmark : ∀ m', timerMarkSend (env.withPoll poll) m' = timerMarkSend env m' := fun _ => rfl
      simp only [runCommand, doPing, transportSend_withPoll, hmark]
  | message =>
      have hmark : ∀ m', timerMarkSend (env.withPoll poll) m' = timerMarkSend env m' := fun _ => rfl
      have hline : ∀ m', readInputLine (env.withPoll poll) m' = readInputLine env m' := fun _ => rfl
      have hfail : ∀ m', msgSendFail (env.withPoll poll) m' = msgSendFail env m' := fun _ => rfl
      have hbuild : (env.withPoll poll).build = env.build := rfl
      simp only [runCommand, doMessageInput, transportSend_withPoll, hmark, hline, hfail, hbuild]
  | loadConfig => rfl

theorem sessionHandlePacket_withPoll (m : Machine σ) :
    sessionHandlePacket (env.withPoll poll) m = sessionHandlePacket env m := by
  have htype2 : ∀ m', handleType2 (env.withPoll poll) m' = handleType2 env m' := fun _ => rfl
  have htype3 : ∀ m', handleType3 (env.withPoll poll) m' = handleType3 env m' := by
    intro m'
    have hcall : callCookieHandleType3 (env.withPoll poll) m' = callCookieHandleType3 env m' := rfl
    simp only [handleType3, sessionInitiate_withPoll, hcall]
  have htype4 : ∀ m', handleType4 (env.withPoll poll) m' = handleType4 env m' := fun _ => rfl
  simp only [sessionHandlePacket, htype2, htype3, htype4]

/-- An iteration depends on the packets to come only through its one poll. -/
theorem commandPoint_withPoll {m : Machine σ}
    (h : (m.elapse env).netInitialized = true →
      poll (m.elapse env).netUdpDest (m.elapse env).udp (m.elapse env).world =
        env.net.netPoll (m.elapse env).netUdpDest (m.elapse env).udp (m.elapse env).world) :
    commandPoint (env.withPoll poll) m = commandPoint env m := by
  have hpoll : pollAndHandle (env.withPoll poll) m = pollAndHandle env m := by
    have helapse : m.elapse (env.withPoll poll) = m.elapse env := rfl
    have hnet : (env.withPoll poll).net.netPoll = poll := rfl
    simp only [pollAndHandle, helapse, hnet, sessionHandlePacket_withPoll]
    split
    · rename_i hinit
      rw [h hinit]
    · rfl
  rw [commandPoint, commandPoint, hpoll, timerCheck_withPoll]
  rfl

theorem mainLoop_withPoll {m : Machine σ}
    (h : commandPoint (env.withPoll poll) m = commandPoint env m) :
    mainLoop (env.withPoll poll) m = mainLoop env m := by
  rw [commandPoint, commandPoint] at h
  simp only [mainLoop, h, runCommand_withPoll]

end Poll

/-! ## Sending succeeds -/

/-- A payload that fits, under a counter that is not exhausted, goes out. -/
theorem transportSend_sends {σ : Type} (env : Env σ) (sender : Sender) {m : Machine σ}
    (hmtu : m.tp.tpPayloadLen ≤ env.build.wgMtu)
    (hctr : ¬ rejectCounterB7 ≤ byte m.tp.tpSendCounter 7)
    (henc : ∀ (key : Bytes 32) (nonce : Bytes 12) (ad : List UInt8) {n : Nat} (data : Bytes n),
      (env.prims.aeadEncrypt key nonce ad data).isSome) :
    ∃ pkt carry,
      (transportSend env sender m).1.trace =
        .netUdpSend m.wgPeer pkt carry ::
          .transportEncrypt sender m.wgState m.hs.hsTransportSend m.tp.tpSendCounter m.ticks ::
          m.trace ∧
      pkt.head? = some 4 := by
  have hfits : ¬ env.build.wgMtu < m.tp.tpPayloadLen := Nat.not_lt.mpr hmtu
  obtain ⟨c', t', rekey, -, -, hlim | hnone⟩ | ⟨ct, tag, c', rekey, heq, -, -⟩ :=
    transportEncrypt_cases env.prims m.hs.hsTransportSend (payloadBytes m) m.hs.toCryptoMem m.tp
  · exact absurd hlim hctr
  · have hsome := henc m.hs.hsTransportSend (transportBuildNonce m.tp.tpSendCounter) []
      (slice (encryptStage (payloadBytes m) m.tp) 16 m.tp.tpPayloadLen)
    rw [hnone] at hsome
    exact absurd hsome (by simp)
  · rw [transportSend, if_neg hfits, callTransportEncrypt, heq]
    exact ⟨_, _, rfl, head?_tpPacketBytes (payload_lt env hfits) ct tag⟩

/-! ## The world -/

/-- The keys still to be pressed, the polls made so far, and how long the typing took. -/
structure Script where
  keys : List UInt8
  polls : Nat
  pause : Nat

/-- An adapter whose calls succeed and that receives nothing. -/
def scriptedNet : NetBackend Script where
  netInit w := (w, false)
  netDhcpAcquire w := (w, false)
  netUdpListen w := (w, false)
  netPoll _ udp w := ({ w with polls := w.polls + 1 }, udp)
  netUdpSend _ _ w := (w, false)
  netUdpClose w := w
  netLastError _ := 0

/-- Chips that read zero and no disk. Time passes only at the prompt: an empty line takes three
minutes. -/
def scriptedHost : Host Script where
  elapse w := ({ w with pause := 0 }, w.pause)
  readReg _ w := (w, 0)
  getin w := ({ w with keys := w.keys.tail }, w.keys.headD 0)
  getinLine w := ({ w with pause := 10800 }, [])
  readConfig w := (w, none)

/-- The default build in that world. -/
def scripted : Env Script where
  prims := rfcPrims
  net := scriptedNet
  host := scriptedHost
  build := defaultBuild

/-- Program start, with these keys pressed one an iteration. -/
def scriptedStart (keys : List UInt8) : Machine Script :=
  Machine.start 0 { keys := keys, polls := 0, pause := 0 } 0

theorem rfcPrims_accepts (key : Bytes 32) (nonce : Bytes 12) (ad : List UInt8) {n : Nat}
    (data : Bytes n) : (rfcPrims.aeadEncrypt key nonce ad data).isSome := rfl

/-! ## A test without a session -/

/-- An iteration that gives a command. -/
theorem mainLoop_command {σ : Type} {env : Env σ} {m : Machine σ} {c : Command}
    (h : (commandPoint env m).1 = some c) :
    mainLoop env m = (runCommand env (commandPoint env m).2 c, decide (c ≠ .quit)) := by
  rw [commandPoint] at h
  simp only [mainLoop, h]
  rfl

/-- The machine on which the test command of the next theorem calls `transport_send`. -/
def testStaged : Machine Script :=
  let m := (commandPoint scripted (scriptedStart [0x53])).2
  { m with tp := { m.tp with tpPayloadPtr := .testPayload, tpPayloadLen := 15 } }

/-- `S` as the first key sends a packet in `IDLE`, under the key of zeros. -/
theorem run_sendTest_idle : ¬ SentLive (run scripted 1 (scriptedStart [0x53])).trace := by
  intro h
  obtain ⟨pkt, carry, htrace, hpkt⟩ := transportSend_sends scripted .sendTest (m := testStaged)
    (by decide) (by decide +kernel) rfcPrims_accepts
  have hkey : (commandPoint scripted (scriptedStart [0x53])).1 = some .sendTest := by
    decide +kernel
  have hrun : run scripted 1 (scriptedStart [0x53]) =
      (transportSend scripted .sendTest testStaged).1.printString
        (if (transportSend scripted .sendTest testStaged).2 then .sendErrMsg else .sendOkMsg) := by
    rw [run, mainLoop_command hkey]
    rfl
  rw [hrun, Machine.printString, Machine.log, htrace] at h
  obtain ⟨sender, counter, t, older', keys, hold, -⟩ := h [_] _ _ _ _ rfl hpkt
  injection hold with he
  injection he with hsender hstate
  exact absurd hstate (by decide +kernel)

/-! ## A line that takes three minutes -/

/-- A Type 2 packet with an ephemeral key of zeros. -/
def taggedResponse (tag : Bytes 16) : UdpRecv where
  udpRecvBuf := copyIn (put (zero _) 0 2) 44 tag
  udpRecvLen := 92
  udpRecvLen_le := by decide
  udpRecvSrc := .start
  udpRecvReady := true

/-- The tag that opens it for an initiator with these cells. -/
def openingTag (hs : HsMem) : Bytes 16 :=
  let k := responseState rfcPrims { hs with hsRespPacket := zero 92 }
  ChaChaPoly.tag k.2 (zero 12) k.1.h.toList (zero 0)

/-- A response the initiator accepts. -/
def scriptedResponse (hs : HsMem) : UdpRecv := taggedResponse (openingTag hs)

theorem byte_taggedResponse (tag : Bytes 16) : byte (taggedResponse tag).udpRecvBuf 0 = 2 := by
  simp [taggedResponse, udpRecvBufSize]

theorem hsProcessResponse_taggedResponse (hs : HsMem) (tag : Bytes 16) :
    (hsProcessResponse rfcPrims
      { hs with hsRespPacket := slice (taggedResponse tag).udpRecvBuf 0 92 }).1 = true ↔
      tag = openingTag hs := by
  have heph : slice (slice (taggedResponse tag).udpRecvBuf 0 92) 12 32 =
      slice (zero 92 : Bytes 92) 12 32 := by
    apply ext_byte
    intro i hi
    simp only [taggedResponse, byte_slice, byte_copyIn, byte_put, byte_zero]
    grind
  have htag : slice (slice (taggedResponse tag).udpRecvBuf 0 92) 44 16 = tag := by
    rw [slice_slice _ _ (by decide), taggedResponse]
    exact slice_copyIn_self _ _ (by decide)
  generalize slice (taggedResponse tag).udpRecvBuf 0 92 = pkt at *
  rw [hsProcessResponse_fst, responseState_congr rfcPrims hs heph]
  refine (ChaChaPoly.aeadOpen_tag _ _ _ _ _).trans ?_
  rw [htag, openingTag]

/-- The keys `I`, `H` and `M`. -/
def lateStart : Machine Script := scriptedStart [0x49, 0x48, 0x4d]

/-- The same world, with a packet in its second poll. -/
def delivering (packet : UdpRecv) : Env Script :=
  scripted.withPoll fun _ udp w =>
    ({ w with polls := w.polls + 1 }, if w.polls = 1 then packet else udp)

/-- After the first two keys. -/
def waiting : Machine Script := (mainLoop scripted (mainLoop scripted lateStart).1).1

theorem waiting_facts :
    waiting.wgState = .hsSent ∧ waiting.netInitialized = true ∧ waiting.ticks = 0 ∧
      waiting.timer.rekeyPending = false ∧ waiting.world.polls = 1 ∧ waiting.world.pause = 0 ∧
      waiting.world.keys = [0x4d] := by
  decide +kernel

/-- An iteration without the second poll. -/
theorem commandPoint_delivering_eq (packet : UdpRecv) {m : Machine Script}
    (h : (m.elapse scripted).netInitialized = true → (m.elapse scripted).world.polls ≠ 1) :
    commandPoint (delivering packet) m = commandPoint scripted m := by
  refine commandPoint_withPoll _ _ fun hinit => ?_
  generalize m.elapse scripted = m' at *
  simp only [if_neg (h hinit)]
  rfl

theorem run_one {σ : Type} (env : Env σ) (m : Machine σ) : run env 1 m = (mainLoop env m).1 := by
  rw [run]
  exact ite_self _

/-- The first two iterations are those without the packet. -/
theorem commandPoint_before (packet : UdpRecv) :
    commandPoint (delivering packet) lateStart = commandPoint scripted lateStart ∧
      commandPoint (delivering packet) (mainLoop scripted lateStart).1 =
        commandPoint scripted (mainLoop scripted lateStart).1 :=
  ⟨commandPoint_delivering_eq packet fun h => absurd h (by decide),
    commandPoint_delivering_eq packet fun _ => by decide +kernel⟩

theorem mainLoop_before (packet : UdpRecv) :
    mainLoop (delivering packet) lateStart = mainLoop scripted lateStart ∧
      mainLoop (delivering packet) (mainLoop scripted lateStart).1 =
        mainLoop scripted (mainLoop scripted lateStart).1 :=
  ⟨mainLoop_withPoll _ _ (commandPoint_before packet).1,
    mainLoop_withPoll _ _ (commandPoint_before packet).2⟩

theorem run_delivering (packet : UdpRecv) :
    run (delivering packet) 3 lateStart = (mainLoop (delivering packet) waiting).1 := by
  have hgo₁ : (mainLoop scripted lateStart).2 = true := by decide +kernel
  have hgo₂ : (mainLoop scripted (mainLoop scripted lateStart).1).2 = true := by decide +kernel
  obtain ⟨h₁, h₂⟩ := mainLoop_before packet
  rw [run, h₁, if_pos hgo₁, run, h₂, if_pos hgo₂, run_one, waiting]

/-! The third iteration: the response is accepted, the timers see a session that has just begun, and
`M` asks for a line. -/

/-- An accepted response. -/
theorem handleType2_accepts {σ : Type} (env : Env σ) {m : Machine σ} (hst : m.wgState = .hsSent)
    (hok : (hsProcessResponse env.prims
      { m.hs with hsRespPacket := slice m.udp.udpRecvBuf 0 92 }).1 = true) :
    handleType2 env m =
      (timerSessionStart env
        ((({ (callHsProcessResponse env m).2 with
            tp := transportInit (callHsProcessResponse env m).2.hs.hsRespPacket
              (callHsProcessResponse env m).2.tp } : Machine σ).log
          .transportInit).setState .active)).printString .hsOkMsg := by
  have hcall : (callHsProcessResponse env m).1 = true := by
    rw [callHsProcessResponse]
    exact hok
  rw [handleType2, if_pos hst, if_pos hcall]

/-- While nobody types, no time passes. -/
theorem elapse_delivering (packet : UdpRecv) {m : Machine Script} (h : m.world.pause = 0) :
    m.elapse (delivering packet) = m := by
  have hworld : ({ m.world with pause := 0 } : Script) = m.world := by rw [← h]
  have helapse : m.elapse (delivering packet) =
      { m with world := { m.world with pause := 0 }, ticks := m.ticks + m.world.pause } := rfl
  rw [helapse, hworld, h]
  rfl

/-- What the rest of the iteration looks at, right after the session began. -/
structure JustBegun (m : Machine Script) : Prop where
  state : m.wgState = .active
  counter : m.tp.tpSendCounter = zero 8
  ticks : m.ticks = 0
  start : m.timer.sessionStartJiffy = jiffyAt 0
  send : m.timer.lastSendJiffy = jiffyAt 0
  pause : m.world.pause = 0
  keys : m.world.keys = [0x4d]
  log : ∃ older,
    m.trace = .printString .hsOkMsg :: .timerSessionStart 0 :: .setState .active :: older

/-- The poll that brings the response. -/
theorem pollAndHandle_delivering {packet : UdpRecv} (hbyte : byte packet.udpRecvBuf 0 = 2)
    (hready : packet.udpRecvReady = true)
    (hok : (hsProcessResponse rfcPrims
      { waiting.hs with hsRespPacket := slice packet.udpRecvBuf 0 92 }).1 = true) :
    JustBegun (pollAndHandle (delivering packet) waiting) := by
  obtain ⟨hst, hinit, hticks, -, hpolls, hpause, hkeys⟩ := waiting_facts
  generalize waiting = w at *
  let w' : Machine Script := { w with
    world := { w.world with polls := w.world.polls + 1 }
    udp := { packet with udpRecvReady := false } }
  have hpoll : pollAndHandle (delivering packet) w = handleType2 (delivering packet) w' := by
    simp only [pollAndHandle, elapse_delivering packet hpause, if_pos hinit]
    have hnet : (delivering packet).net.netPoll w.netUdpDest w.udp w.world =
        ({ w.world with polls := w.world.polls + 1 }, packet) :=
      congrArg (Prod.mk _) (if_pos hpolls)
    rw [hnet, if_pos hready]
    simp only [sessionHandlePacket, if_pos hbyte]
    rfl
  rw [hpoll, handleType2_accepts (delivering packet) (m := w') hst hok]
  have hclock : w.ticks + w.world.pause = 0 := by rw [hticks, hpause]
  refine ⟨rfl, rfl, hclock, ?_, ?_, rfl, hkeys, ?_⟩
  · exact congrArg jiffyAt hclock
  · exact congrArg jiffyAt hclock
  · rw [← hclock]
    exact ⟨_, rfl⟩

/-- The timers find nothing to do. -/
theorem timerCheck_justBegun (packet : UdpRecv) {m : Machine Script} (h : JustBegun m) :
    timerCheck (delivering packet) m = m.log (.timerCheck 0) := by
  have hpause : (m.log (.timerCheck 0)).world.pause = 0 := h.pause
  have hjiffy : (m.log (.timerCheck 0)).jiffy = jiffyAt 0 := congrArg jiffyAt h.ticks
  have hstart : (m.log (.timerCheck 0)).timer.sessionStartJiffy = jiffyAt 0 := h.start
  have hsend : (m.log (.timerCheck 0)).timer.lastSendJiffy = jiffyAt 0 := h.send
  have hstate : (m.log (.timerCheck 0)).wgState = .active := h.state
  simp only [timerCheck, elapse_delivering packet h.pause, h.ticks]
  generalize m.log (.timerCheck 0) = m' at *
  have hrekey : checkRekey (delivering packet) m' = m' := by
    simp only [checkRekey, elapse_delivering packet hpause, hjiffy, hstart]
    exact ite_self _
  simp only [hstate, timerCheckActive, hjiffy, hstart, hrekey, checkKeepalive,
    elapse_delivering packet hpause, hsend]
  rfl

/-- The machine on which `M` calls `transport_send`. -/
def messageStaged {σ : Type} (env : Env σ) (m : Machine σ) : Machine σ :=
  let m := readInputLine env (m.printString .msgPrompt)
  let text := .ipPacketBuf ipUdpHdrLen
  stageIpPacket { m with ip := udpTunnelBuild env.build text m.ip.msgInputLen m.cfg m.ip }

theorem doMessageInput_active {σ : Type} {env : Env σ} {m : Machine σ} (hstate : m.wgState = .active)
    (hwhole : env.build.uciChunkedWrite = false) :
    doMessageInput env m =
      (timerMarkSend env (transportSend env .message (messageStaged env m)).1).printString
        .sendOkMsg := by
  simp only [doMessageInput, if_pos hstate, hwhole, Bool.false_eq_true, false_and, if_false]
  rfl

/-- `M`, after the session began: the packet is built 10800 jiffies later. -/
theorem doMessageInput_late (packet : UdpRecv) {m : Machine Script} (hstate : m.wgState = .active)
    (hctr : m.tp.tpSendCounter = zero 8) (hticks : m.ticks = 0) :
    ∃ newer key counter,
      (doMessageInput (delivering packet) m).trace =
        newer ++ .transportEncrypt .message .active key counter 10800 ::
          .chrout 0x0d :: .printString .msgPrompt :: m.trace := by
  have hlen : (messageStaged (delivering packet) m).tp.tpPayloadLen ≤
      (delivering packet).build.wgMtu := show 28 ≤ 860 by decide
  have hlow : ¬ rejectCounterB7 ≤
      byte (messageStaged (delivering packet) m).tp.tpSendCounter 7 := by
    rw [show (messageStaged (delivering packet) m).tp.tpSendCounter = zero 8 from hctr, byte_zero]
    decide
  have hclock : (messageStaged (delivering packet) m).ticks = m.ticks + 10800 := rfl
  have hlog : (messageStaged (delivering packet) m).trace =
      .chrout 0x0d :: .printString .msgPrompt :: m.trace := rfl
  obtain ⟨pkt, carry, htrace, -⟩ := transportSend_sends (delivering packet) .message
    (m := messageStaged (delivering packet) m) hlen hlow rfcPrims_accepts
  rw [hclock, hticks, hlog,
    show (messageStaged (delivering packet) m).wgState = .active from hstate] at htrace
  rw [doMessageInput_active hstate rfl]
  generalize (transportSend (delivering packet) .message _).1 = sent at htrace
  exact ⟨[_, _], _, _, congrArg (List.cons (Event.printString .sendOkMsg)) htrace⟩

/-- The third iteration, up to the command. -/
theorem commandPoint_delivering {packet : UdpRecv}
    (h : JustBegun (pollAndHandle (delivering packet) waiting)) :
    let r := commandPoint (delivering packet) waiting
    r.1 = some .message ∧ r.2.wgState = .active ∧ r.2.tp.tpSendCounter = zero 8 ∧ r.2.ticks = 0 ∧
      r.2.trace = .timerCheck 0 :: (pollAndHandle (delivering packet) waiting).trace := by
  rw [commandPoint, timerCheck_justBegun packet h]
  generalize pollAndHandle (delivering packet) waiting = m at *
  have hclock : m.ticks + m.world.pause = 0 := by rw [h.ticks, h.pause]
  have hkey : m.world.keys.headD 0 = 0x4d := by rw [h.keys]; rfl
  exact ⟨congrArg commandOf hkey, h.state, h.counter, hclock, rfl⟩

theorem justBegun_scriptedResponse :
    JustBegun (pollAndHandle (delivering (scriptedResponse waiting.hs)) waiting) := by
  exact pollAndHandle_delivering (byte_taggedResponse _) rfl
    ((hsProcessResponse_taggedResponse waiting.hs _).mpr rfl)

/-- The whole log, back to the start of the session. -/
theorem trace_delivering {packet : UdpRecv}
    (h : JustBegun (pollAndHandle (delivering packet) waiting)) :
    ∃ newer key counter older,
      (run (delivering packet) 3 lateStart).trace =
        newer ++ .transportEncrypt .message .active key counter 10800 ::
          .chrout 0x0d :: .printString .msgPrompt :: .timerCheck 0 :: .printString .hsOkMsg ::
          .timerSessionStart 0 :: .setState .active :: older := by
  obtain ⟨hkey, hstate, hctr, hticks, hlog⟩ := commandPoint_delivering h
  obtain ⟨older, holder⟩ := h.log
  obtain ⟨newer, key, counter, htrace⟩ := doMessageInput_late packet hstate hctr hticks
  rw [hlog, holder] at htrace
  rw [run_delivering, mainLoop_command hkey]
  exact ⟨newer, key, counter, older, htrace⟩

/-- A session is used past its lifetime: a line that takes three minutes to type is sent in the
session it was begun in. -/
theorem run_message_late :
    ¬ WithinLifetime (run (delivering (scriptedResponse waiting.hs)) 3 lateStart).trace := by
  intro h
  obtain ⟨newer, key, counter, older, htrace⟩ := trace_delivering justBegun_scriptedResponse
  have hlt : 10800 - 0 < 10800 := h _ _ _ 10800 htrace (.encrypt (by decide) .active key counter) rfl
  exact absurd hlt (by decide)

/-! The same run gives no test command, and what it sends belongs to its session. -/

theorem testsLive_of_ne {σ : Type} {env : Env σ} {m : Machine σ}
    (h : (commandPoint env m).1 ≠ some .sendTest) : TestsLive env m :=
  fun htest => absurd htest h

theorem allTestsLive_delivering {packet : UdpRecv}
    (h : JustBegun (pollAndHandle (delivering packet) waiting)) :
    AllTestsLive (delivering packet) 3 lateStart := by
  obtain ⟨hkey, -⟩ := commandPoint_delivering h
  obtain ⟨hc₁, hc₂⟩ := commandPoint_before packet
  obtain ⟨hm₁, hm₂⟩ := mainLoop_before packet
  refine ⟨testsLive_of_ne ?_, fun _ => ?_⟩
  · rw [hc₁]
    decide +kernel
  · rw [hm₁]
    refine ⟨testsLive_of_ne ?_, fun _ => ?_⟩
    · rw [hc₂]
      decide +kernel
    · rw [hm₂]
      refine ⟨testsLive_of_ne ?_, fun _ => trivial⟩
      rw [show (mainLoop scripted (mainLoop scripted lateStart).1).1 = waiting from rfl, hkey]
      decide

theorem run_sentLive_late :
    AllTestsLive (delivering (scriptedResponse waiting.hs)) 3 lateStart ∧
      SentLive (run (delivering (scriptedResponse waiting.hs)) 3 lateStart).trace := by
  have hlive := allTestsLive_delivering justBegun_scriptedResponse
  exact ⟨hlive, run_sentLive _ 0 _ 0 3 hlive⟩

end C64WireGuard
