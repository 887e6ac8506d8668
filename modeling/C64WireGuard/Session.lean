import C64WireGuard.Handshake
import C64WireGuard.HandshakeInputs
import C64WireGuard.IpBuild
import C64WireGuard.Transport

/-!
# `session.s`, and the parts of `timer.s` and `transport.s` it calls

The session state machine: an initiation goes out, a response or a cookie reply comes in, transport
packets follow. `session_handle_packet` dispatches on the first byte of `udp_recv_buf` alone.
-/

namespace C64WireGuard

open Bytes

variable {σ : Type}

/-! ## Timers -/

/-- `timer_session_start`. -/
def timerSessionStart (env : Env σ) (m : Machine σ) : Machine σ :=
  let m := m.elapse env
  let m := m.log (.timerSessionStart m.ticks)
  { m with
    timer := { m.timer with
      sessionStartJiffy := m.jiffy
      lastSendJiffy := m.jiffy
      hsTimerArmed := false } }

/-- `timer_handshake_start`. -/
def timerHandshakeStart (env : Env σ) (m : Machine σ) : Machine σ :=
  let m := timerSessionStart env m
  { m with timer := { m.timer with hsTimerArmed := true } }

/-- `timer_mark_send`. -/
def timerMarkSend (env : Env σ) (m : Machine σ) : Machine σ :=
  let m := m.elapse env
  { m with timer := { m.timer with lastSendJiffy := m.jiffy } }

/-- `timer_elapsed_cmp`, its carry: the low 16 bits of the difference against a threshold. -/
def timerElapsedCmp (now snapshot : Bytes 3) (thrLo thrHi : UInt8) : Bool :=
  let d := sub16 (byte now 2) (byte now 1) (byte snapshot 2) (byte snapshot 1)
  if d.2 < thrHi then false else if d.2 ≠ thrHi then true else decide (thrLo ≤ d.1)

/-! ## Sending -/

/-- `session_stage_dest`. -/
def sessionStageDest (m : Machine σ) : Machine σ := { m with netUdpDest := m.wgPeer }

/-- `test_payload`, `"HELLO WIREGUARD"`. -/
def testPayload : Bytes 15 :=
  #v[0x48, 0x45, 0x4c, 0x4c, 0x4f, 0x20, 0x57, 0x49, 0x52, 0x45, 0x47, 0x55, 0x41, 0x52, 0x44]

/-- The bytes `tp_payload_ptr` points at. -/
def payloadBytes (m : Machine σ) : Bytes udpRecvBufSize :=
  match m.tp.tpPayloadPtr with
  | .unset => zero _
  | .testPayload => copyIn (zero _) 0 testPayload
  | .ipPacketBuf => m.ip.ipPacketBuf

/-- The call of `transport_encrypt`, and its carry. A successful one is logged. -/
def callTransportEncrypt (env : Env σ) (sender : Sender) (m : Machine σ) : Machine σ × Bool :=
  let r := transportEncrypt env.prims m.hs.hsTransportSend (payloadBytes m) m.hs.toCryptoMem m.tp
  let counter := m.tp.tpSendCounter
  let m := { m with
    hs := { m.hs with toCryptoMem := r.1 }
    tp := r.2.1
    timer := { m.timer with rekeyPending := m.timer.rekeyPending || r.2.2.2 } }
  if r.2.2.1 then (m, true)
  else
    (m.log (.transportEncrypt sender m.wgState m.hs.hsTransportSend counter m.ticks), false)

/-- The bytes of `tp_packet` that go on the wire. -/
def tpPacketBytes (tp : TpMem) : List UInt8 := (slice tp.tpPacket 0 tp.tpPacketLen).toList

/-- `transport_send`, and its carry. -/
def transportSend (env : Env σ) (sender : Sender) (m : Machine σ) : Machine σ × Bool :=
  if env.build.wgMtu < m.tp.tpPayloadLen then (m, true)
  else
    let r := callTransportEncrypt env sender m
    if r.2 then (r.1, true)
    else (sessionStageDest r.1).netUdpSend env (tpPacketBytes r.1.tp)

/-! ## Teardown and initiation -/

/-- `session_reset`. -/
def sessionReset (env : Env σ) (m : Machine σ) : Machine σ :=
  let m := m.setState .idle
  let m := { m with timer := { m.timer with hsTimerArmed := false } }
  m.netUdpClose env

/-- `session_send_failed`. -/
def sessionSendFailed (env : Env σ) (m : Machine σ) : Machine σ :=
  (sessionReset env m).printString .hsSendErrMsg

/-- `session_initiate` up to `hs_create_initiation`: configuration, ephemeral key, sender index and
timestamp. -/
def sessionPrepare (env : Env σ) (m : Machine σ) : Machine σ :=
  let c := configLoad env m
  let priv := entropyFill env 32 c.1 c.2
  let m := { priv.2.2 with hs := { priv.2.2.hs with hsEphemPriv := priv.1 } }
  let idx := entropyFill env 4 priv.2.1 m
  let m := { idx.2.2 with hs := { idx.2.2.hs with hsSenderIdx := idx.1 } }
  let m := m.elapse env
  let now := tai64nNow m.jiffy m.cfg.tai64nBaseTime m.tai
  { m with tai := now.1, hs := { m.hs with hsTimestamp := now.2 } }

/-- The initiation built and handed to the adapter, and the carry. -/
def sendInitiation (env : Env σ) (m : Machine σ) : Machine σ × Bool :=
  let m := { m with hs := hsCreateInitiation env.prims m.hs }
  let m := sessionStageDest m
  m.netUdpSend env m.hs.hsPacket.toList

/-- `session_initiate`. -/
def sessionInitiate (env : Env σ) (m : Machine σ) : Machine σ :=
  let r := sendInitiation env (sessionPrepare env m)
  if r.2 then sessionSendFailed env r.1
  else timerHandshakeStart env (r.1.setState .hsSent)

/-! ## Receiving -/

/-- The call of `cookie_handle_type3`. Its outcome is logged. -/
def callCookieHandleType3 (env : Env σ) (m : Machine σ) : Bool × Machine σ :=
  let r := cookieHandleType3 env.prims m.cfg.cfgPeerPub m.udp m.hs
  let m := { m with hs := r.2 }
  (r.1, m.log (.cookieHandleType3 m.cfg.cfgPeerPub m.udp r.1))

/-- `@type3` of `session_handle_packet`. -/
def handleType3 (env : Env σ) (m : Machine σ) : Machine σ :=
  if m.wgState = .hsSent then
    let r := callCookieHandleType3 env m
    if r.1 then sessionInitiate env (r.2.printString .cookieRecvMsg) else r.2
  else m

/-- The call of `hs_process_response` on the 92 bytes of the packet. Its outcome is logged. -/
def callHsProcessResponse (env : Env σ) (m : Machine σ) : Bool × Machine σ :=
  let hs := { m.hs with hsRespPacket := slice m.udp.udpRecvBuf 0 92 }
  let r := hsProcessResponse env.prims hs
  let m := { m with hs := r.2 }
  (r.1, m.log (.hsProcessResponse
    (if r.1 then some (m.hs.hsTransportSend, m.hs.hsTransportRecv) else none)))

/-- `@type2` of `session_handle_packet`. -/
def handleType2 (env : Env σ) (m : Machine σ) : Machine σ :=
  if m.wgState = .hsSent then
    let r := callHsProcessResponse env m
    if r.1 then
      let m := { r.2 with tp := transportInit r.2.hs.hsRespPacket r.2.tp }
      let m := m.log .transportInit
      let m := m.setState .active
      let m := timerSessionStart env m
      m.printString .hsOkMsg
    else (sessionReset env r.2).printString .hsFailMsg
  else m

/-- `endpoint_update`. -/
def endpointUpdate (env : Env σ) (m : Machine σ) : Machine σ :=
  if m.udp.udpRecvSrc = m.wgPeer then m
  else ({ m with wgPeer := m.udp.udpRecvSrc } : Machine σ).netUdpClose env

/-- `print_buf16` with its filter on, of `len` bytes of `tp_packet`, and the line end. -/
def printPacket (off len : Nat) (m : Machine σ) : Machine σ :=
  m.chroutAll (printBuf16 1 m.tp.tpPacket off len ++ [0x0d])

/-- `display_payload`. -/
def displayPayload (m : Machine σ) : Machine σ :=
  printPacket 16 m.tp.tpPayloadLen (m.printString .recvDataMsg)

/-- `@t4_icmp`. -/
def handleIcmp (m : Machine σ) : Machine σ :=
  if icmpParseReply m.tp then m.printString .pingReplyMsg else displayPayload m

/-- `@t4_udp`. -/
def handleUdp (env : Env σ) (m : Machine σ) : Machine σ :=
  let r := udpTunnelParse env.build m.tp m.ip
  let m := { m with ip := r.2 }
  if r.1 then
    printPacket (m.ip.msgRecvPtr.getD 0) m.ip.msgRecvLen (m.printString .msgRecvHdr)
  else displayPayload m

/-- The routing of a decrypted packet by its protocol byte. -/
def routePayload (env : Env σ) (m : Machine σ) : Machine σ :=
  if byte m.tp.tpPacket 25 = ipProtoIcmp then handleIcmp m
  else if byte m.tp.tpPacket 25 = ipProtoUdp then handleUdp env m
  else displayPayload m

/-- The copy into `tp_packet` and the call of `transport_decrypt`. Its outcome is logged. -/
def callTransportDecrypt (env : Env σ) (m : Machine σ) : Bool × Machine σ :=
  let tp := { m.tp with
    tpPacket := copy16 m.tp.tpPacket 0 m.udp.udpRecvBuf 0 m.udp.udpRecvLen
    tpPacketLen := m.udp.udpRecvLen }
  let r := transportDecrypt env.prims m.hs.hsTransportRecv m.udp m.hs.toCryptoMem tp
  let m := { m with hs := { m.hs with toCryptoMem := r.2.1 }, tp := r.2.2 }
  (r.1, m.log (.transportDecrypt m.hs.hsTransportRecv r.1 m.ticks))

/-- `@type4` of `session_handle_packet`. -/
def handleType4 (env : Env σ) (m : Machine σ) : Machine σ :=
  if m.wgState = .active then
    let r := callTransportDecrypt env m
    if r.1 then routePayload env (endpointUpdate env r.2)
    else r.2.printString .decryptFailMsg
  else m

/-- `session_handle_packet`. -/
def sessionHandlePacket (env : Env σ) (m : Machine σ) : Machine σ :=
  let m := { m with udp := { m.udp with udpRecvReady := false } }
  if byte m.udp.udpRecvBuf 0 = 2 then handleType2 env m
  else if byte m.udp.udpRecvBuf 0 = 3 then handleType3 env m
  else if byte m.udp.udpRecvBuf 0 = 4 then handleType4 env m
  else m

end C64WireGuard
