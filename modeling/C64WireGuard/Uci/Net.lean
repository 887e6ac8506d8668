import C64WireGuard.Uci.Commands

/-!
# `net.s`, the adapter for the command interface

The routines behind `net_abi.inc`: bring-up, the connected UDP socket, sending in one
`SOCKET_WRITE` or in parts, and receiving a reply block by block. The carry is the answer `true`.
-/

namespace C64WireGuard.Uci

open Bytes

variable {δ : Type} (D : Device δ)

/-! ## Constants -/

/-- `UCI_ERR_NOT_PRESENT`. -/
def uciErrNotPresent : UInt8 := 0x81

/-- `UCI_ERR_CMD_FAILED`. -/
def uciErrCmdFailed : UInt8 := 0x82

/-- `UCI_ERR_NO_IP`. -/
def uciErrNoIp : UInt8 := 0x83

/-- `UCI_ERR_CONNECT_FAIL`. -/
def uciErrConnectFail : UInt8 := 0x84

/-- `UCI_ERR_SEND_FAIL`. -/
def uciErrSendFail : UInt8 := 0x85

/-- `UCI_ERR_READ_FAIL`. -/
def uciErrReadFail : UInt8 := 0x86

/-- `UCI_ERR_SHORT_WRITE`. -/
def uciErrShortWrite : UInt8 := 0x87

/-- `UCI_ERR_NO_SOCKET`. -/
def uciErrNoSocket : UInt8 := 0x88

/-- `UCI_ERR_LONG_READ`. -/
def uciErrLongRead : UInt8 := 0x8a

/-- `UCI_ERR_SEND_TOO_LONG`. -/
def uciErrSendTooLong : UInt8 := 0x8c

/-- `UCI_ERR_OPEN_REFUSED`. -/
def uciErrOpenRefused : UInt8 := 0x8d

/-- `UCI_ERR_CMD_UNKNOWN`. -/
def uciErrCmdUnknown : UInt8 := 0x8e

/-- `UCI_ERR_SHORT_READ`. -/
def uciErrShortRead : UInt8 := 0x8f

/-- `UCI_TARGET_NETWORK`. -/
def uciTargetNetwork : UInt8 := 0x03

/-- `UCI_CMD_GET_IFACE_COUNT`. -/
def uciCmdGetIfaceCount : UInt8 := 0x02

/-- `UCI_CMD_GET_IPADDR`. -/
def uciCmdGetIpaddr : UInt8 := 0x05

/-- `UCI_CMD_UDP_CONNECT`. -/
def uciCmdUdpConnect : UInt8 := 0x08

/-- `UCI_CMD_SOCKET_CLOSE`. -/
def uciCmdSocketClose : UInt8 := 0x09

/-- `UCI_CMD_SOCKET_READ`. -/
def uciCmdSocketRead : UInt8 := 0x10

/-- `UCI_CMD_SOCKET_WRITE`. -/
def uciCmdSocketWrite : UInt8 := 0x11

/-- `UCI_CMD_SOCKET_WRITE_CHUNK`. -/
def uciCmdSocketWriteChunk : UInt8 := 0x16

/-- `NET_UDP_SEND_MAX`, by whether the build defines `UCI_CHUNKED_WRITE`. -/
def netUdpSendMax (chunked : Bool) : Nat := if chunked then 1472 else 892

/-- `UCI_CHUNK_PART_MAX`. -/
def uciChunkPartMax : Nat := 888

/-- `UCI_READ_CHUNK_MAX`. -/
def uciReadChunkMax : Nat := 1472

/-- `UCI_STATUS_SETTLE_READS`. -/
def uciStatusSettleReads : Nat := 8

/-- `NET_DHCP_MAX_IFACE`. -/
def netDhcpMaxIface : Nat := 4

/-- The low byte of a 16-bit cell. -/
def lo (n : Nat) : UInt8 := UInt8.ofNat (n % 256)

/-- The high byte of a 16-bit cell. -/
def hi (n : Nat) : UInt8 := UInt8.ofNat (n / 256 % 256)

/-! ## Exchanges -/

/-- Write `net_last_error`. -/
def setLastError (e : UInt8) : Prog (State δ) Unit := store fun m => { m with netLastError := e }

/-- `uci_put_byte` on each byte in turn. -/
def putBytes : List UInt8 → Prog (State δ) Unit
  | [] => pure ()
  | b :: bs => do
    uciPutByte D b
    putBytes bs

/-- The drains and the ack that end an exchange, given up when a drain gives up. -/
def drainAck : Prog (State δ) Bool := do
  if ← uciDrainResp D then pure true else do
  if ← uciDrainStatus D then pure true else do
  uciAck D
  pure false

/-- The drains and the ack that end an exchange, whatever comes of the drains. -/
def drainAckAlways : Prog (State δ) Unit := do
  let _ ← uciDrainResp D
  let _ ← uciDrainStatus D
  uciAck D

/-! ## The socket -/

/-- `net_udp_close`. -/
def netUdpClose : Prog (State δ) Bool := do
  if (← cells).uciSocketOpen = 0 then pure false else do
  if ← uciWaitIdle D then closeWedged else do
  uciBeginCmd D uciTargetNetwork
  uciPutByte D uciCmdSocketClose
  uciPutByte D (← cells).uciSocketId
  if ← uciPushWait D then closeWedged else do
  let err ← uciCheckErr D
  if ← uciWaitReplyStaged D then closeWedged else do
  if ← drainAck D then closeWedged else do
  store fun m => { m with uciSocketId := 0, uciSocketOpen := 0 }
  if err then do
    setLastError uciErrCmdFailed
    pure true
  else pure false
where
  /-- `@uc_wedged`. -/
  closeWedged : Prog (State δ) Bool := do
    store fun m => { m with uciSocketId := 0, uciSocketOpen := 0 }
    pure true

/-- `push_byte_as_ascii`: the digits it counts down to, leading zeros left out. -/
def pushByteAsAscii (b : UInt8) : Prog (State δ) Unit := do
  .when (b / 100 ≠ 0) (uciPutByte D (b / 100 ||| 0x30))
  .when (b % 100 / 10 ≠ 0 ∨ 10 ≤ b) (uciPutByte D (b % 100 / 10 ||| 0x30))
  uciPutByte D (b % 100 % 10 ||| 0x30)

/-- The parameters of `UDP_CONNECT`: the port, low byte first, and the host as text. -/
def putEndpoint (dest : Endpoint) : Prog (State δ) Unit := do
  uciPutByte D (byte dest.port 1)
  uciPutByte D (byte dest.port 0)
  pushByteAsAscii D (byte dest.ip 0)
  uciPutByte D 0x2e
  pushByteAsAscii D (byte dest.ip 1)
  uciPutByte D 0x2e
  pushByteAsAscii D (byte dest.ip 2)
  uciPutByte D 0x2e
  pushByteAsAscii D (byte dest.ip 3)
  uciPutByte D 0

/-- A status line was posted, and its code is not 00. -/
def refused (m : UciMem) : Bool := 2 ≤ m.uciStatusSeen && uciStatusLeadingCode m ≠ 0

/-- `@uc_read_id` of `uci_udp_connect`. -/
def readSocketId : Prog (State δ) Bool := do
  store fun m => { m with uciSocketId := 0 }
  uciReadRespBytes D 1 fun _ b m => { m with uciSocketId := b }
  drainAckAlways D
  let m ← cells
  if m.uciRespCount = 0 ∨ m.uciSocketId = 0 then do
    setLastError uciErrNoSocket
    pure true
  else pure false

/-- `uci_udp_connect`. -/
def uciUdpConnect : Prog (State δ) Bool := do
  if ← uciWaitIdle D then pure true else do
  uciBeginCmd D uciTargetNetwork
  uciPutByte D uciCmdUdpConnect
  putEndpoint D (← cells).netUdpDest
  if ← uciPushWait D then pure true else do
  if ← uciCheckErr D then do
    setLastError uciErrConnectFail
    drainAckAlways D
    pure true
  else do
  if ← uciWaitReplyStaged D then pure true else do
  let _ ← uciDrainStatus D
  if refused (← cells) then do
    setLastError uciErrOpenRefused
    let _ ← uciDrainResp D
    uciAck D
    pure true
  else readSocketId D

/-! ## Bring-up -/

/-- `net_init`. -/
def netInit : Prog (State δ) Bool := do
  let id ← lda D .uciId
  if id ≠ uciIdValue then do
    setLastError uciErrNotPresent
    pure true
  else do
  if ← uciTodStart D then pure true else do
  uciAbort D
  .when ((← cells).uciSocketOpen = 1) do
    let _ ← netUdpClose D
  store fun m =>
    { m with netLocalIp := zero 4, uciSocketId := 0, uciSocketOpen := 0, netLastError := 0 }
  pure false

/-- `@read_resp` of `net_dhcp_acquire`. -/
def readResp (max : Nat) : Prog (State δ) Bool := do
  uciReadRespBytes D max fun i b m => { m with uciIpaddrResp := put m.uciIpaddrResp i b }
  drainAck D

/-- `@advance`, at interface `idx` of `n`. -/
def advance (n idx : Nat) : Nat ⊕ Bool := if idx + 1 < n then .inl (idx + 1) else .inr true

/-- `@next_iface`, at interface `idx` of `n`. -/
def nextIface (n idx : Nat) : Prog (State δ) (Nat ⊕ Bool) := do
  if ← uciWaitIdle D then pure (.inr true) else do
  uciBeginCmd D uciTargetNetwork
  uciPutByte D uciCmdGetIpaddr
  uciPutByte D (lo idx)
  if ← uciPushWait D then pure (.inr true) else do
  if ← uciCheckErr D then do
    if ← drainAck D then pure (.inr true) else pure (advance n idx)
  else do
  if ← readResp D 12 then pure (.inr true) else do
  if (← cells).uciRespCount ≠ 12 then pure (advance n idx) else do
  store fun m => { m with netLocalIp := slice m.uciIpaddrResp 0 4 }
  if (← cells).netLocalIp ≠ zero 4 then do
    setLastError 0
    pure (.inr false)
  else do
    setLastError uciErrNoIp
    pure (advance n idx)

/-- `net_dhcp_acquire`. -/
def netDhcpAcquire : Prog (State δ) Bool := do
  store fun m => { m with netLocalIp := zero 4, netLastError := uciErrCmdFailed }
  if ← uciWaitIdle D then pure true else do
  uciBeginCmd D uciTargetNetwork
  uciPutByte D uciCmdGetIfaceCount
  if ← uciPushWait D then pure true else do
  if ← uciCheckErr D then do
    let _ ← drainAck D
    pure true
  else do
  if ← readResp D 1 then pure true else do
  let m ← cells
  if m.uciRespCount ≠ 1 then pure true
  else if byte m.uciIpaddrResp 0 = 0 then pure true
  else .loop (nextIface D (min (byte m.uciIpaddrResp 0).toNat netDhcpMaxIface)) 0

/-! ## Sending -/

/-- `@sb_loop` and `@sp_loop`: the bytes behind the operand, until `uci_chunk_len` has run out. -/
def bodyLoop (o : Operand) : Prog (State δ) (Operand ⊕ Unit) := do
  let m ← cells
  if m.uciChunkLen = 0 then pure (.inr ())
  else do
    sta D .uciCmdData (m.ram o.addr)
    store fun m => { m with uciChunkLen := m.uciChunkLen - 1 }
    pure (.inl o.next)

/-- `uci_read_resp_bytes` into `uci_write_resp`. -/
def readWriteResp : Prog (State δ) Unit :=
  uciReadRespBytes D 2 fun i b m => { m with uciWriteResp := put m.uciWriteResp i b }

/-- The error that the count of a write's reply stands for, if any. -/
def countError (m : UciMem) : Option UInt8 :=
  if m.uciRespCount < 2 then some uciErrShortWrite
  else if byte m.uciWriteResp 0 &&& byte m.uciWriteResp 1 = 0xff then some uciErrSendFail
  else if byte m.uciWriteResp 0 ≠ lo m.uciSendRem then some uciErrShortWrite
  else if byte m.uciWriteResp 1 ≠ hi m.uciSendRem then some uciErrShortWrite
  else none

/-- The end of a write that the device took: the count in its reply decides. -/
def writeReply (fail : UInt8 → Prog (State δ) Bool) : Prog (State δ) Bool := do
  store fun m => { m with uciWriteResp := zero 2 }
  readWriteResp D
  if ← drainAck D then pure true else do
  match countError (← cells) with
  | none => pure false
  | some e => fail e

/-- Fail with an error. -/
def failWith (e : UInt8) : Prog (State δ) Bool := do
  setLastError e
  pure true

/-- `net_udp_send` from `@fits_len`, in a build without chunked writes. -/
def socketWrite : Prog (State δ) Bool := do
  if ← uciWaitIdle D then pure true else do
  uciBeginCmd D uciTargetNetwork
  uciPutByte D uciCmdSocketWrite
  uciPutByte D (← cells).uciSocketId
  Prog.loop (bodyLoop D) ⟨(← cells).netUdpSendPtr, 0⟩
  if ← uciPushWait D then pure true else do
  if ← uciCheckErr D then do
    setLastError uciErrSendFail
    let _ ← drainAck D
    pure true
  else writeReply D failWith

/-- `@sp_status_err`: a posted code 21 names an unknown command. -/
def spStatusErr (e : UInt8) : Prog (State δ) Bool := do
  setLastError e
  let m ← cells
  .when (2 ≤ m.uciStatusSeen ∧ uciStatusLeadingCode m = 21) (setLastError uciErrCmdUnknown)
  pure true

/-- `uci_settle_status`, with the reads left and the one before. -/
def settleLoop : Nat → UInt8 → Prog (State δ) (Option UInt8)
  | 0, _ => do
    giveUp
    setLastError uciErrWaitTimeout
    pure none
  | reads + 1, prev => do
    let status ← lda D .uciStatus
    let status := status &&& (uciStatDataAv ||| uciStatState)
    if status = prev then pure (some status) else settleLoop reads status

/-- `uci_settle_status`: two reads in a row that agree. -/
def uciSettleStatus : Prog (State δ) (Option UInt8) := settleLoop D uciStatusSettleReads 0xff

/-- The part that `uci_send_part` is about to send: what is left, at most `UCI_CHUNK_PART_MAX`. -/
def partLen (m : UciMem) : Nat :=
  min ((m.uciSendRem + 65536 - m.uciChunkOff) % 65536) uciChunkPartMax

/-- The part that completes the datagram is judged by the count in its reply. -/
def completingPart : Prog (State δ) Bool :=
  writeReply D fun e => if e = uciErrShortWrite then spStatusErr e else failWith e

/-- `@sp_more`: a part that does not complete the datagram is judged by its status line. -/
def spMore : Prog (State δ) Bool := do
  store fun m => { m with uciRespCount := 0, uciWriteResp := zero 2 }
  if ← uciWaitReplyStaged D then pure true else do
  match ← uciSettleStatus D with
  | none => pure true
  | some status => do
  .when (status &&& uciStatDataAv ≠ 0) (readWriteResp D)
  if ← drainAck D then pure true else do
  if refused (← cells) then spStatusErr uciErrSendFail else pure false

/-- `uci_send_part`. The offset moves on before the part is pushed. -/
def uciSendPart : Prog (State δ) Bool := do
  if ← uciWaitIdle D then pure true else do
  store fun m => { m with uciChunkLen := partLen m }
  uciBeginCmd D uciTargetNetwork
  uciPutByte D uciCmdSocketWriteChunk
  let m ← cells
  uciPutByte D m.uciSocketId
  uciPutByte D (lo m.uciChunkOff)
  uciPutByte D (hi m.uciChunkOff)
  uciPutByte D (lo m.uciSendRem)
  uciPutByte D (hi m.uciSendRem)
  store fun m => { m with uciChunkOff := (m.uciChunkOff + m.uciChunkLen) % 65536 }
  Prog.loop (bodyLoop D) ⟨(m.netUdpSendPtr + m.uciChunkOff) % 65536, 0⟩
  if ← uciPushWait D then pure true else do
  if ← uciCheckErr D then do
    if ← drainAck D then pure true else spStatusErr uciErrSendFail
  else do
  let m ← cells
  if m.uciChunkOff = m.uciSendRem then completingPart D else spMore D

/-- `@part_loop`. -/
def partLoop : Unit → Prog (State δ) (Unit ⊕ Bool)
  | () => do
    if ← uciSendPart D then pure (.inr true) else do
    let m ← cells
    if m.uciChunkOff = m.uciSendRem then pure (.inr false) else pure (.inl ())

/-- `@fits` of `net_udp_send`: a socket is opened unless there is one. -/
def openSocket : Prog (State δ) Bool := do
  if (← cells).uciSocketOpen ≠ 0 then pure false else do
  if ← uciUdpConnect D then pure true else do
  store fun m => { m with uciSocketOpen := 1 }
  pure false

/-- `net_udp_send` of the `net_udp_send_len` bytes at `ptr`. -/
def netUdpSend (chunked : Bool) (ptr : Nat) : Prog (State δ) Bool := do
  store fun m =>
    { m with netUdpSendPtr := ptr, uciSendRem := m.netUdpSendLen, uciChunkLen := m.netUdpSendLen }
  let m ← cells
  if m.uciSendRem = 0 then pure false
  else if netUdpSendMax chunked < m.uciSendRem then do
    setLastError uciErrSendTooLong
    pure true
  else do
  if ← openSocket D then pure true
  else if chunked then do
    store fun m => { m with uciChunkOff := 0 }
    .loop (partLoop D) ()
  else socketWrite D

/-! ## Receiving -/

/-- `@poll_fail`. -/
def pollFail : Prog (State δ) Bool := do
  drainAckAlways D
  pure true

/-- `@hdr_loop`, with the bytes still to come, into `uci_read_hdr` from `y` on. -/
def hdrLoop : Nat → Nat → Prog (State δ) Bool
  | 0, _ => pure true
  | left + 1, y => do
    let status ← lda D .uciStatus
    if status &&& uciStatDataAv = 0 then pure false
    else do
      let b ← lda D .uciRespData
      store fun m => { m with uciReadHdr := put m.uciReadHdr y b }
      hdrLoop left (y + 1)

/-- The length that the two bytes of the header announce. -/
def hdrLen (hdr : Bytes 2) : Nat := (byte hdr 0).toNat + 256 * (byte hdr 1).toNat

/-- `@block_end`: no byte is ready and some are missing. -/
def blockEnd (o : Operand) : Prog (State δ) (Operand ⊕ Bool) := do
  if (← cells).uciPollRem = 0 then pure (.inr false) else do
  match ← uciSettleStatus D with
  | none => pure (.inr true)
  | some status =>
    if status &&& uciStatDataAv ≠ 0 then pure (.inl o)
    else if status &&& uciStatState = uciStateDataMore then do
      uciAck D
      pure (.inl o)
    else if status &&& uciStatState = uciStateBusy then do
      if ← uciWaitReplyStaged D then pure (.inr true) else pure (.inl o)
    else do
      store fun m =>
        { m with
          uciShortReadState := status &&& uciStatState ||| 0x80
          netLastError := uciErrShortRead }
      pure (.inr true)

/-- The write of a received byte. -/
def writeRam (a : Nat) (b : UInt8) (m : UciMem) : UciMem :=
  { m with ram := fun i => if i = a then b else m.ram i }

/-- `@byte_loop`. -/
def byteLoop (o : Operand) : Prog (State δ) (Operand ⊕ Bool) := do
  if (← cells).uciPollRem = 0 then pure (.inr false) else do
  let status ← lda D .uciStatus
  if status &&& uciStatDataAv = 0 then blockEnd D o
  else do
    let b ← lda D .uciRespData
    store (writeRam o.addr b)
    store fun m => { m with uciPollRem := m.uciPollRem - 1 }
    pure (.inl o.next)

/-- `@done_data`. On a connected socket the datagram is the peer's. -/
def doneData : Prog (State δ) Bool := do
  drainAckAlways D
  store fun m => { m with udpRecvSrc := m.netUdpDest, udpRecvReady := 1 }
  pure false

/-- `@hdr_done`, with `udp_recv_buf` at `buf`. -/
def hdrDone (buf : Nat) : Prog (State δ) Bool := do
  let m ← cells
  if byte m.uciReadHdr 0 &&& byte m.uciReadHdr 1 = 0xff then do
    drainAckAlways D
    pure false
  else if uciReadChunkMax < hdrLen m.uciReadHdr then do
    drainAckAlways D
    setLastError uciErrLongRead
    pure true
  else do
  store fun m => { m with uciPollRem := hdrLen m.uciReadHdr, udpRecvLen := hdrLen m.uciReadHdr }
  if (← cells).uciPollRem = 0 then do
    drainAckAlways D
    pure false
  else do
  if ← Prog.loop (byteLoop D) ⟨buf, 0⟩ then pollFail D else doneData D

/-- `net_poll`, with `udp_recv_buf` at `buf`. -/
def netPoll (buf : Nat) : Prog (State δ) Bool := do
  if (← cells).uciSocketOpen = 0 then pure false else do
  if (← cells).udpRecvReady ≠ 0 then pure false else do
  if ← uciWaitIdle D then pure true else do
  uciBeginCmd D uciTargetNetwork
  uciPutByte D uciCmdSocketRead
  uciPutByte D (← cells).uciSocketId
  uciPutByte D (lo uciReadChunkMax)
  uciPutByte D (hi uciReadChunkMax)
  if ← uciPushWait D then pure true else do
  if ← uciCheckErr D then do
    setLastError uciErrReadFail
    pollFail D
  else do
  if ← uciWaitReplyStaged D then pollFail D else do
  if ← hdrLoop D 2 0 then hdrDone D buf
  else do
    drainAckAlways D
    pure false

end C64WireGuard.Uci
