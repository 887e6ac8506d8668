import C64WireGuard.Session
import C64WireGuard.DiskConfig

/-!
# `boot.s` and `timer_check`: the main loop

One iteration polls the adapter and handles a packet, runs the timers, and then at most one key
command. The jiffy clock runs on between any two of these.
-/

namespace C64WireGuard

open Bytes

variable {σ : Type}

/-! ## `timer_check` -/

/-- `timer_check_handshake`. -/
def timerCheckHandshake (env : Env σ) (m : Machine σ) : Machine σ :=
  if m.timer.hsTimerArmed then
    let m := m.elapse env
    if timerElapsedCmp m.jiffy m.timer.sessionStartJiffy 0x18 0x15 then
      (sessionReset env m).printString .hsTimeoutMsg
    else m
  else m

/-- `@check_rekey`. -/
def checkRekey (env : Env σ) (m : Machine σ) : Machine σ :=
  if m.timer.rekeyPending then m
  else
    let m := m.elapse env
    if timerElapsedCmp m.jiffy m.timer.sessionStartJiffy 0x20 0x1c then
      ({ m with timer := { m.timer with rekeyPending := true } } : Machine σ).printString .rekeyMsg
    else m

/-- `@check_keepalive`. The carry of `transport_send` is not looked at. -/
def checkKeepalive (env : Env σ) (m : Machine σ) : Machine σ :=
  let m := m.elapse env
  if timerElapsedCmp m.jiffy m.timer.lastSendJiffy 0x58 0x02 then
    let m := { m with tp := { m.tp with tpPayloadLen := 0 } }
    let m := (transportSend env .keepalive m).1
    (timerMarkSend env m).printString .keepaliveMsg
  else m

/-- `@active`: the expiry, then the rest. -/
def timerCheckActive (env : Env σ) (m : Machine σ) : Machine σ :=
  if timerElapsedCmp m.jiffy m.timer.sessionStartJiffy 0x30 0x2a then
    (sessionReset env m).printString .sessionExpiredMsg
  else checkKeepalive env (checkRekey env m)

/-- `timer_check`. -/
def timerCheck (env : Env σ) (m : Machine σ) : Machine σ :=
  let m := m.elapse env
  let m := m.log (.timerCheck m.ticks)
  match m.wgState with
  | .idle => m
  | .hsSent => timerCheckHandshake env m
  | .active => timerCheckActive env m

/-! ## Commands -/

/-- `do_net_init`. -/
def doNetInit (env : Env σ) (m : Machine σ) : Machine σ :=
  let m := m.printString .netInitMsg
  let r := env.net.netInit m.world
  let m := { m with world := r.1 }
  if r.2 then m.printString .netErrMsg
  else
    let m := m.printString .netDhcpMsg
    let r := env.net.netDhcpAcquire m.world
    let m := { m with world := r.1 }
    if r.2 then m.printString .dhcpErrMsg
    else
      let m := m.printString .netOkMsg
      let r := env.net.netUdpListen m.world
      let m := { m with world := r.1 }
      if r.2 then m.printString .netListenErrMsg
      else { m.printString .netListenMsg with netInitialized := true }

/-- `do_send_test`. -/
def doSendTest (env : Env σ) (m : Machine σ) : Machine σ :=
  let m := { m with tp := { m.tp with tpPayloadPtr := .testPayload, tpPayloadLen := 15 } }
  let r := transportSend env .sendTest m
  r.1.printString (if r.2 then .sendErrMsg else .sendOkMsg)

/-- `do_handshake`. -/
def doHandshake (env : Env σ) (m : Machine σ) : Machine σ :=
  sessionInitiate env (entropyInit env (m.printString .hsStartMsg))

/-- The packet in `ip_packet_buf` as payload. -/
def stageIpPacket (m : Machine σ) : Machine σ :=
  { m with tp := { m.tp with tpPayloadPtr := .ipPacketBuf, tpPayloadLen := m.ip.ipPktLen } }

/-- `do_ping`. The carry of `transport_send` is not looked at. -/
def doPing (env : Env σ) (m : Machine σ) : Machine σ :=
  if m.wgState = .active then
    let m := stageIpPacket { m with ip := icmpBuildEcho m.cfg m.ip }
    let m := (transportSend env .ping m).1
    (timerMarkSend env m).printString .pingSentMsg
  else m.printString .notActiveMsg

/-- One result of `GETIN` in `read_input_line`, and what it echoes. -/
def readInputKey (build : Build) (ip : IpMem) (key : UInt8) : IpMem × List UInt8 :=
  if key = 0 then (ip, [])
  else if key = 0x14 then
    if ip.msgInputLen = 0 then (ip, []) else ({ ip with msgInputLen := ip.msgInputLen - 1 }, [0x14])
  else if msgTextMax build ≤ ip.msgInputLen then (ip, [])
  else
    ({ ip with
        ipPacketBuf := put ip.ipPacketBuf (ipUdpHdrLen + ip.msgInputLen) key
        msgInputLen := ip.msgInputLen + 1 }, [key])

/-- `@ril_loop`, and the echo of RETURN. -/
def readInputLoop (build : Build) : List UInt8 → IpMem → IpMem × List UInt8
  | [], ip => (ip, [0x0d])
  | key :: keys, ip =>
      let r := readInputKey build ip key
      let rest := readInputLoop build keys r.1
      (rest.1, r.2 ++ rest.2)

/-- `read_input_line`. It returns when RETURN comes, however long that takes. -/
def readInputLine (env : Env σ) (m : Machine σ) : Machine σ :=
  let line := env.host.getinLine m.world
  let r := readInputLoop env.build line.2 { m.ip with msgInputLen := 0 }
  let m := ({ m with world := line.1, ip := r.1 } : Machine σ).chroutAll r.2
  m.elapse env

/-- `@msg_hex_nibble`. -/
def hexNibble (n : UInt8) : UInt8 := if n < 10 then n + 0x30 else n + 0x37

/-- `@msg_send_fail`, in builds with chunked writes. -/
def msgSendFail (env : Env σ) (m : Machine σ) : Machine σ :=
  let err := env.net.netLastError m.world
  (m.printString .msgSendErrStr).chroutAll [hexNibble (err >>> 4), hexNibble (err &&& 0x0f), 0x0d]

/-- `do_message_input`. The state is checked before the line is read. -/
def doMessageInput (env : Env σ) (m : Machine σ) : Machine σ :=
  if m.wgState = .active then
    let m := readInputLine env (m.printString .msgPrompt)
    let text := .ipPacketBuf ipUdpHdrLen
    let m := { m with ip := udpTunnelBuild env.build text m.ip.msgInputLen m.cfg m.ip }
    let r := transportSend env .message (stageIpPacket m)
    if env.build.uciChunkedWrite ∧ r.2 then msgSendFail env r.1
    else (timerMarkSend env r.1).printString .sendOkMsg
  else m.printString .notActiveMsg

/-- `do_load_config`. -/
def doLoadConfig (env : Env σ) (m : Machine σ) : Machine σ :=
  let m := m.printString .cfgLoadingMsg
  let file := env.host.readConfig m.world
  let r := configReadFile file.2 m.cfg
  let m := { m with world := file.1, cfg := r.2 }
  m.printString (if r.1 then .cfgErrMsg else .cfgOkMsg)

/-! ## The loop -/

/-- The commands of the main loop. -/
inductive Command
  | quit
  | netInit
  | handshake
  | sendTest
  | ping
  | message
  | loadConfig
deriving DecidableEq

/-- The command a key stands for. -/
def commandOf (key : UInt8) : Option Command :=
  if key = 0x51 then some .quit
  else if key = 0x49 then some .netInit
  else if key = 0x48 then some .handshake
  else if key = 0x53 then some .sendTest
  else if key = 0x50 then some .ping
  else if key = 0x4d then some .message
  else if key = 0x4c then some .loadConfig
  else none

/-- Run a command. -/
def runCommand (env : Env σ) (m : Machine σ) : Command → Machine σ
  | .quit => m.netUdpClose env
  | .netInit => doNetInit env m
  | .handshake => doHandshake env m
  | .sendTest => doSendTest env m
  | .ping => doPing env m
  | .message => doMessageInput env m
  | .loadConfig => doLoadConfig env m

/-- Poll the adapter and handle what it received. -/
def pollAndHandle (env : Env σ) (m : Machine σ) : Machine σ :=
  let m := m.elapse env
  if m.netInitialized then
    let r := env.net.netPoll m.netUdpDest m.udp m.world
    let m := { m with world := r.1, udp := r.2 }
    if m.udp.udpRecvReady then sessionHandlePacket env m else m
  else m

/-- `getin`, the clock running until the key is looked at, and the command it stands for. -/
def getCommand (env : Env σ) (m : Machine σ) : Option Command × Machine σ :=
  let r := env.host.getin m.world
  (commandOf r.2, ({ m with world := r.1 } : Machine σ).elapse env)

/-- One iteration of `main_loop`, and whether the program goes on. -/
def mainLoop (env : Env σ) (m : Machine σ) : Machine σ × Bool :=
  let m := pollAndHandle env m
  let m := timerCheck env m
  let r := getCommand env m
  match r.1 with
  | none => (r.2, true)
  | some c => (runCommand env r.2 c, decide (c ≠ .quit))

/-- At most `n` iterations; fewer when the program quits. -/
def run (env : Env σ) : Nat → Machine σ → Machine σ
  | 0, m => m
  | n + 1, m =>
      let r := mainLoop env m
      if r.2 then run env n r.1 else r.1

end C64WireGuard
