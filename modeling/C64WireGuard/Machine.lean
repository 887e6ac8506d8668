import C64WireGuard.Lib.Multibyte

/-!
# The machine the program runs on

The program is a set of subroutines over global cells. This module gives the cells that
`src/wg/data.s` lays out, grouped as it groups them, and what the image is linked against: the crypto
libraries (`Primitives`), a network adapter behind `src/net_abi.inc` (`NetBackend`), the KERNAL and
the hardware registers (`Host`), and the build-time constants (`Build`).

Everything outside the cells is one state of an arbitrary type `σ`, which the adapter and the host
act on. A statement about every `σ` is a statement about every schedule of packets, keys, send
failures and clock readings.

A subroutine is a function on the group of cells it touches, so its type already says what it
leaves alone. Pointer and length operands that a caller stages immediately before a call are
arguments; cells that outlive a call are state, scratch cells included.

`Machine.trace` and `B2s.b2sInits` are ghosts: newest-first logs of calls the program makes. No
subroutine reads them.
-/

namespace C64WireGuard

/-! ## What the image is linked against -/

/-- The routines of the `x25519` and `chacha20poly1305` libraries, as functions of their
documented inputs. `aeadEncrypt` refuses an operand outside its domain and then writes nothing;
`aeadDecrypt` returns whether the tag matched, and what it leaves in the data buffer either way. -/
structure Primitives where
  x25519Clamp : Bytes 32 → Bytes 32
  x25519Scalarmult : Bytes 32 → Bytes 32 → Bytes 32
  x25519Base : Bytes 32 → Bytes 32
  aeadEncrypt : Bytes 32 → Bytes 12 → List UInt8 → {n : Nat} → Bytes n →
    Option (Bytes n × Bytes 16)
  aeadDecrypt : Bytes 32 → Bytes 12 → List UInt8 → {n : Nat} → Bytes n → Bytes 16 →
    Bool × Bytes n
  chacha20Init : Bytes 32 → Bytes 4 → Bytes 12 → Bytes 64
  chacha20QuarterRound : Nat → Bytes 64 → Bytes 64

/-- An IPv4 address and a big-endian port, laid out as one 6-byte run. -/
structure Endpoint where
  ip : Bytes 4
  port : Bytes 2
deriving DecidableEq

/-- The size of `udp_recv_buf`, and of `tp_packet`. -/
def udpRecvBufSize : Nat := 1500

/-- The receive cells an adapter fills. It never announces more than the buffer holds. -/
structure UdpRecv where
  udpRecvBuf : Bytes udpRecvBufSize
  udpRecvLen : Nat
  udpRecvLen_le : udpRecvLen ≤ udpRecvBufSize
  udpRecvSrc : Endpoint
  udpRecvReady : Bool

/-- A network adapter behind `net_abi.inc`, with the adapter's own cells and everything beyond
the wire in `σ`. A returned `Bool` is the carry: `true` reports a failure. -/
structure NetBackend (σ : Type) where
  netInit : σ → σ × Bool
  netDhcpAcquire : σ → σ × Bool
  netUdpListen : σ → σ × Bool
  netPoll : Endpoint → UdpRecv → σ → σ × UdpRecv
  netUdpSend : Endpoint → List UInt8 → σ → σ × Bool
  netUdpClose : σ → σ
  netLastError : σ → UInt8

/-- The chip registers `entropy.s` reads. -/
inductive Reg
  | sidOsc3
  | cia1TaLo
  | cia1TaHi
  | vicRaster
deriving DecidableEq

/-- The KERNAL and the chips. `elapse` is the jiffies that pass before the program goes on; `getin`
is 0 when no key is down; `getinLine` is the results of `GETIN` up to the next RETURN, which it
consumes; `readConfig` is the bytes of `WG.CFG`, or `none` when `OPEN` or `CHKIN` fails. -/
structure Host (σ : Type) where
  elapse : σ → σ × Nat
  readReg : Reg → σ → σ × UInt8
  getin : σ → σ × UInt8
  getinLine : σ → σ × List UInt8
  readConfig : σ → σ × Option (List UInt8)

/-- The tunnel MTU of a build, inside the bounds `constants.inc` asserts, whether the build defines
`UCI_CHUNKED_WRITE`, and `msg_port`, high byte first (9999 unless the build sets `MSG_PORT`). -/
structure Build where
  wgMtu : Nat
  wgMtu_ge : 576 - 28 ≤ wgMtu
  wgMtu_le : wgMtu + 32 ≤ udpRecvBufSize
  uciChunkedWrite : Bool
  msgPort : Bytes 2

/-- The default build. -/
def defaultBuild : Build where
  wgMtu := 860
  wgMtu_ge := by decide
  wgMtu_le := by decide
  uciChunkedWrite := false
  msgPort := #v[0x27, 0x0f]

/-- One with a larger tunnel MTU. -/
def largerBuild : Build :=
  { defaultBuild with
    wgMtu := 1420
    wgMtu_ge := by decide
    wgMtu_le := by decide }

/-- Everything the program is linked against. -/
structure Env (σ : Type) where
  prims : Primitives
  net : NetBackend σ
  host : Host σ
  build : Build

/-! ## Cells -/

/-- `wg_state`. -/
inductive WgState
  | idle
  | hsSent
  | active
deriving DecidableEq, Repr

/-- The routines that call `blake2s_init`. -/
inductive HashSite
  | hsInit
  | hsMixHash
  | hmacBlake2s
  | cookieKey
  | hsComputeMac1
  | hsSetMac2
deriving DecidableEq

/-- The BLAKE2s cells: hash state, block buffer, counter, parameters and output. The parameter
cells are read by every `blake2s_init`, whoever wrote them last; `b2sInits` is a ghost, the
newest-first log of those calls with the parameters they ran under. -/
structure B2s where
  b2sH : Bytes 32
  b2sBlock : Bytes 64
  b2sT : Bytes 8
  b2sF : UInt8
  b2sBufLen : Nat
  b2sOutLen : UInt8
  b2sKeyLen : UInt8
  b2sHash : Bytes 32
  inputBuffer : Bytes 256
  b2sInits : List (HashSite × UInt8 × UInt8)

/-- Crypto scratch shared by every handshake and transport step. -/
structure CryptoMem where
  b2s : B2s
  hmacIpad : Bytes 64
  hmacOpad : Bytes 64
  hmacInnerHash : Bytes 32
  kdfPrk : Bytes 32
  kdfOut1 : Bytes 32
  kdfOut2 : Bytes 32
  kdfOut3 : Bytes 32
  kdfHmacBuf : Bytes 33
  x25Scalar : Bytes 32
  x25U : Bytes 32
  x25Result : Bytes 32
  aeadKey : Bytes 32
  aeadNonce : Bytes 12
  aeadTag : Bytes 16
  poly1305Tag : Bytes 16
  cc20Key : Bytes 32
  cc20Counter : Bytes 4
  cc20Nonce : Bytes 12
  cc20Work : Bytes 64

/-- Handshake and cookie cells, over the crypto scratch they are computed with. -/
structure HsMem extends CryptoMem where
  hsC : Bytes 32
  hsH : Bytes 32
  hsStaticPriv : Bytes 32
  hsStaticPub : Bytes 32
  hsRespPub : Bytes 32
  hsEphemPriv : Bytes 32
  hsEphemPub : Bytes 32
  hsDhResult : Bytes 32
  hsSenderIdx : Bytes 4
  hsTimestamp : Bytes 12
  hsMac1Key : Bytes 32
  hsPacket : Bytes 148
  hsRespPacket : Bytes 92
  hsTransportSend : Bytes 32
  hsTransportRecv : Bytes 32
  hsPresharedKey : Bytes 32
  hsMac1Valid : Bool
  cookieBuf : Bytes 32
  cookieValid : Bool

/-- What `tp_payload_ptr` points at. -/
inductive PayloadPtr
  | unset
  | testPayload
  | ipPacketBuf
deriving DecidableEq

/-- Transport and replay-window cells. -/
structure TpMem where
  tpSendCounter : Bytes 8
  tpRecvCounter : Bytes 8
  tpRecvCounterTmp : Bytes 8
  tpPeerRecvIdx : Bytes 4
  tpPayloadPtr : PayloadPtr
  tpPayloadLen : Nat
  tpPacket : Bytes udpRecvBufSize
  tpPacketLen : Nat
  tpEncryptError : UInt8
  rwBitmap : Bytes 256
  rwCounterMax : Bytes 8
  rwShiftLo : UInt8
  rwShiftHi : UInt8
  rwNewCounter : UInt8

/-- Configuration staged by `config_read_file`. -/
structure CfgMem where
  cfgStaticPriv : Bytes 32
  cfgStaticPub : Bytes 32
  cfgPeerPub : Bytes 32
  cfgPeerEndpoint : Endpoint
  cfgPresharedKey : Bytes 32
  tunnelIp : Bytes 4
  pingTargetIp : Bytes 4
  tai64nBaseTime : Bytes 8

/-- Inner-packet and message cells. The first `wgMtu` bytes of `ipPacketBuf` are `ip_packet_buf`;
those behind are here so that a write past its end would be seen. `msgRecvPtr` is an offset into
`tp_packet`, once it has been set. -/
structure IpMem where
  ipPacketBuf : Bytes udpRecvBufSize
  ipPktLen : Nat
  ipCksumResult : Bytes 2
  pingSeq : Bytes 2
  msgInputLen : Nat
  msgRecvPtr : Option Nat
  msgRecvLen : Nat

/-- Session timer cells. -/
structure TimerMem where
  sessionStartJiffy : Bytes 3
  lastSendJiffy : Bytes 3
  rekeyPending : Bool
  hsTimerArmed : Bool

/-- TAI64N timeline cells. -/
structure TaiMem where
  tai64nInitJiffy : Bytes 3
  tai64nSeq : Bytes 4
  tai64nLast : Bytes 12
  tai64nInitBase : Bytes 8

/-! ## Calls the program makes -/

/-- The labels of `strings.s` that `print_string` is called with. -/
inductive Str
  | netInitMsg | netErrMsg | netDhcpMsg | dhcpErrMsg | netOkMsg | netListenMsg
  | netListenErrMsg | sendOkMsg | sendErrMsg | hsStartMsg | hsOkMsg | hsFailMsg
  | hsTimeoutMsg | hsSendErrMsg | decryptFailMsg | recvDataMsg | pingSentMsg | pingReplyMsg
  | notActiveMsg | msgPrompt | msgRecvHdr | cfgLoadingMsg | cfgOkMsg | cfgErrMsg
  | cookieRecvMsg | rekeyMsg | sessionExpiredMsg | keepaliveMsg | msgSendErrStr
deriving DecidableEq, Repr

/-- The routine that built a Type 4 packet. -/
inductive Sender
  | sendTest
  | ping
  | message
  | keepalive
deriving DecidableEq

/-- One call, or one write of `wg_state`, in the order the program makes them. -/
inductive Event
  | netUdpSend (dest : Endpoint) (pkt : List UInt8) (carry : Bool)
  | netUdpClose
  | printString (s : Str)
  | chrout (b : UInt8)
  | setState (s : WgState)
  | hsProcessResponse (keys : Option (Bytes 32 × Bytes 32))
  | cookieHandleType3 (cfgPeerPub : Bytes 32) (udp : UdpRecv) (ok : Bool)
  | transportInit
  | transportEncrypt (sender : Sender) (state : WgState) (key : Bytes 32) (counter : Bytes 8)
      (ticks : Nat)
  | transportDecrypt (key : Bytes 32) (ok : Bool) (ticks : Nat)
  | timerSessionStart (ticks : Nat)
  | timerCheck (ticks : Nat)

/-! ## The machine -/

/-- The period of the jiffy clock: the KERNAL resets it to zero after 24 hours. -/
def jiffyPeriod : Nat := 0x4f1a00

/-- The KERNAL clock cells `$A0`–`$A2`, high byte first. -/
def jiffyAt (ticks : Nat) : Bytes 3 :=
  let t := ticks % jiffyPeriod
  #v[UInt8.ofNat (t / 65536), UInt8.ofNat (t / 256), UInt8.ofNat t]

/-- All cells, the outside world, the jiffies since power-on, and the ghost log. -/
structure Machine (σ : Type) where
  hs : HsMem
  tp : TpMem
  udp : UdpRecv
  netUdpDest : Endpoint
  wgPeer : Endpoint
  wgState : WgState
  cfg : CfgMem
  ip : IpMem
  timer : TimerMem
  tai : TaiMem
  entropyState : UInt8
  netInitialized : Bool
  world : σ
  ticks : Nat
  trace : List Event

/-! ## Program start

`LOAD` stamps zeros over every cell of the image except `b2s_out_len`. `b2s_key_len` is a zero-page
cell outside the image and keeps what it held. -/

/-- The hash cells at program start. -/
def B2s.start (b2sKeyLen : UInt8) : B2s where
  b2sH := .zero 32
  b2sBlock := .zero 64
  b2sT := .zero 8
  b2sF := 0
  b2sBufLen := 0
  b2sOutLen := 32
  b2sKeyLen := b2sKeyLen
  b2sHash := .zero 32
  inputBuffer := .zero 256
  b2sInits := []

/-- The crypto scratch at program start. -/
def CryptoMem.start (b2sKeyLen : UInt8) : CryptoMem where
  b2s := .start b2sKeyLen
  hmacIpad := .zero 64
  hmacOpad := .zero 64
  hmacInnerHash := .zero 32
  kdfPrk := .zero 32
  kdfOut1 := .zero 32
  kdfOut2 := .zero 32
  kdfOut3 := .zero 32
  kdfHmacBuf := .zero 33
  x25Scalar := .zero 32
  x25U := .zero 32
  x25Result := .zero 32
  aeadKey := .zero 32
  aeadNonce := .zero 12
  aeadTag := .zero 16
  poly1305Tag := .zero 16
  cc20Key := .zero 32
  cc20Counter := .zero 4
  cc20Nonce := .zero 12
  cc20Work := .zero 64

/-- The handshake cells at program start. -/
def HsMem.start (b2sKeyLen : UInt8) : HsMem where
  toCryptoMem := .start b2sKeyLen
  hsC := .zero 32
  hsH := .zero 32
  hsStaticPriv := .zero 32
  hsStaticPub := .zero 32
  hsRespPub := .zero 32
  hsEphemPriv := .zero 32
  hsEphemPub := .zero 32
  hsDhResult := .zero 32
  hsSenderIdx := .zero 4
  hsTimestamp := .zero 12
  hsMac1Key := .zero 32
  hsPacket := .zero 148
  hsRespPacket := .zero 92
  hsTransportSend := .zero 32
  hsTransportRecv := .zero 32
  hsPresharedKey := .zero 32
  hsMac1Valid := false
  cookieBuf := .zero 32
  cookieValid := false

/-- The transport cells at program start. -/
def TpMem.start : TpMem where
  tpSendCounter := .zero 8
  tpRecvCounter := .zero 8
  tpRecvCounterTmp := .zero 8
  tpPeerRecvIdx := .zero 4
  tpPayloadPtr := .unset
  tpPayloadLen := 0
  tpPacket := .zero _
  tpPacketLen := 0
  tpEncryptError := 0
  rwBitmap := .zero 256
  rwCounterMax := .zero 8
  rwShiftLo := 0
  rwShiftHi := 0
  rwNewCounter := 0

/-- An endpoint of zeros. -/
def Endpoint.start : Endpoint where
  ip := .zero 4
  port := .zero 2

/-- The receive cells at program start. -/
def UdpRecv.start : UdpRecv where
  udpRecvBuf := .zero _
  udpRecvLen := 0
  udpRecvLen_le := Nat.zero_le _
  udpRecvSrc := .start
  udpRecvReady := false

/-- The staged configuration at program start. -/
def CfgMem.start : CfgMem where
  cfgStaticPriv := .zero 32
  cfgStaticPub := .zero 32
  cfgPeerPub := .zero 32
  cfgPeerEndpoint := .start
  cfgPresharedKey := .zero 32
  tunnelIp := .zero 4
  pingTargetIp := .zero 4
  tai64nBaseTime := .zero 8

/-- All cells at program start. -/
def Machine.start {σ : Type} (b2sKeyLen : UInt8) (world : σ) (ticks : Nat) : Machine σ where
  hs := .start b2sKeyLen
  tp := .start
  udp := .start
  netUdpDest := .start
  wgPeer := .start
  wgState := .idle
  cfg := .start
  ip :=
    { ipPacketBuf := .zero _
      ipPktLen := 0
      ipCksumResult := .zero 2
      pingSeq := .zero 2
      msgInputLen := 0
      msgRecvPtr := none
      msgRecvLen := 0 }
  timer :=
    { sessionStartJiffy := .zero 3
      lastSendJiffy := .zero 3
      rekeyPending := false
      hsTimerArmed := false }
  tai :=
    { tai64nInitJiffy := .zero 3
      tai64nSeq := .zero 4
      tai64nLast := .zero 12
      tai64nInitBase := .zero 8 }
  entropyState := 0
  netInitialized := false
  world := world
  ticks := ticks
  trace := []

namespace Machine

variable {σ : Type}

/-- The clock cells now. -/
def jiffy (m : Machine σ) : Bytes 3 := jiffyAt m.ticks

/-- Let the jiffy clock run. -/
def elapse (env : Env σ) (m : Machine σ) : Machine σ :=
  let r := env.host.elapse m.world
  { m with world := r.1, ticks := m.ticks + r.2 }

/-- Log a call. -/
def log (m : Machine σ) (e : Event) : Machine σ := { m with trace := e :: m.trace }

/-- `print_string`. -/
def printString (m : Machine σ) (s : Str) : Machine σ := m.log (.printString s)

/-- `chrout` on each byte in turn. -/
def chroutAll (m : Machine σ) (bs : List UInt8) : Machine σ :=
  { m with trace := (bs.map Event.chrout).reverse ++ m.trace }

/-- Write `wg_state`. -/
def setState (m : Machine σ) (s : WgState) : Machine σ :=
  { m with wgState := s, trace := .setState s :: m.trace }

/-- `net_udp_send` of `pkt` to the staged destination, and its carry. -/
def netUdpSend (env : Env σ) (pkt : List UInt8) (m : Machine σ) : Machine σ × Bool :=
  let r := env.net.netUdpSend m.netUdpDest pkt m.world
  (({ m with world := r.1 } : Machine σ).log (.netUdpSend m.netUdpDest pkt r.2), r.2)

/-- `net_udp_close`. -/
def netUdpClose (env : Env σ) (m : Machine σ) : Machine σ :=
  ({ m with world := env.net.netUdpClose m.world } : Machine σ).log .netUdpClose

end Machine

end C64WireGuard
