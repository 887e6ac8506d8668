import C64WireGuard.Machine

/-!
# `ip_build.s`: inner IPv4 packets

Echo requests and UDP messages on the way out, and the two parsers that route what comes in. The
parsers read the decrypted packet at offset 16 of `tp_packet`.
-/

namespace C64WireGuard

open Bytes

/-! ## Constants -/

/-- `ip_hdr_template`. -/
def ipHdrTemplate : Bytes 20 :=
  #v[0x45, 0, 0, 0, 0, 0, 0x40, 0, 0x40, 0, 0, 0, 0, 0, 0, 0, 0, 0, 0, 0]

/-- `IP_PROTO_ICMP`. -/
def ipProtoIcmp : UInt8 := 1

/-- `IP_PROTO_UDP`. -/
def ipProtoUdp : UInt8 := 17

/-- `WG_ICMP_ID`, high byte first. -/
def wgIcmpId : Bytes 2 := #v[0xc6, 0x40]

/-- `UDP_HDR_LEN`. -/
def udpHdrLen : Nat := 8

/-- `IP_UDP_HDR_LEN`. -/
def ipUdpHdrLen : Nat := 28

/-- `MSG_TEXT_MAX`: what the headers leave of the tunnel MTU. -/
def msgTextMax (build : Build) : Nat := build.wgMtu - ipUdpHdrLen

/-! ## Building -/

/-- The loop of `ip_checksum`: a little-endian sum with end-around carry. A carry that leaves the
sum zero ends it early. -/
def ipChecksumLoop : List UInt8 → Nat → Nat
  | a :: b :: bs, sum =>
      let t := sum + a.toNat + 256 * b.toNat
      if t < 65536 then ipChecksumLoop bs t
      else if (t + 1) % 65536 = 0 then 0
      else ipChecksumLoop bs ((t + 1) % 65536)
  | _, sum => sum

/-- `ip_checksum` over an even number of bytes. -/
def ipChecksum (bs : List UInt8) : Bytes 2 :=
  let sum := ipChecksumLoop bs 0
  #v[UInt8.ofNat sum ^^^ 0xff, UInt8.ofNat (sum / 256) ^^^ 0xff]

/-- The IPv4 header from the template: total length, protocol, addresses, checksum zero. -/
def ipHeader (totalLen : Bytes 2) (proto : UInt8) (cfg : CfgMem) (buf : Bytes udpRecvBufSize) :
    Bytes udpRecvBufSize :=
  let buf := copyIn buf 0 ipHdrTemplate
  let buf := copyIn buf 2 totalLen
  let buf := put buf 9 proto
  let buf := copyIn buf 10 (zero 2)
  let buf := copyIn buf 12 cfg.tunnelIp
  copyIn buf 16 cfg.pingTargetIp

/-- The header checksum, in place. -/
def ipHeaderChecksum (ip : IpMem) : IpMem :=
  let cksum := ipChecksum (slice ip.ipPacketBuf 0 20).toList
  { ip with ipCksumResult := cksum, ipPacketBuf := copyIn ip.ipPacketBuf 10 cksum }

/-- `icmp_build_echo`. Only the low byte of `ip_pkt_len` is written. -/
def icmpBuildEcho (cfg : CfgMem) (ip : IpMem) : IpMem :=
  let buf := ipHeader (ofBe 2 28) ipProtoIcmp cfg ip.ipPacketBuf
  let buf := copyIn buf 20 (#v[8, 0, 0, 0] : Bytes 4)
  let buf := copyIn buf 24 wgIcmpId
  let buf := copyIn buf 26 ip.pingSeq
  let cksum := ipChecksum (slice buf 20 8).toList
  let ip := ipHeaderChecksum { ip with ipPacketBuf := copyIn buf 22 cksum }
  { ip with
    ipPktLen := ip.ipPktLen / 256 * 256 + 28
    pingSeq := ofBe 2 ((be ip.pingSeq + 1) % 65536) }

/-- `ip_packet_buf` with the request behind the header, its checksum still zero. -/
def echoStage (cfg : CfgMem) (ip : IpMem) : Bytes udpRecvBufSize :=
  let buf := ipHeader (ofBe 2 28) ipProtoIcmp cfg ip.ipPacketBuf
  let buf := copyIn buf 20 (#v[8, 0, 0, 0] : Bytes 4)
  let buf := copyIn buf 24 wgIcmpId
  copyIn buf 26 ip.pingSeq

/-- What `zp_ptr1` points at when `udp_tunnel_build` is called: text elsewhere in memory, or an offset
of `ip_packet_buf`. -/
inductive TextPtr
  | elsewhere {n : Nat} (text : Bytes n)
  | ipPacketBuf (off : Nat)

/-- The payload copy of `udp_tunnel_build`, `@copy_pg` and `@copy_lo`. -/
def TextPtr.copy (len : Nat) (buf : Bytes udpRecvBufSize) : TextPtr → Bytes udpRecvBufSize
  | .elsewhere text => copy16 buf ipUdpHdrLen text 0 len
  | .ipPacketBuf off => move16 buf ipUdpHdrLen off len

/-- `udp_tunnel_build` of `len` bytes of text. -/
def udpTunnelBuild (build : Build) (text : TextPtr) (len : Nat) (cfg : CfgMem) (ip : IpMem) : IpMem :=
  let len := if len ≤ msgTextMax build then len else msgTextMax build
  let buf := ipHeader (ofBe 2 ((len + ipUdpHdrLen) % 65536)) ipProtoUdp cfg ip.ipPacketBuf
  let buf := copyIn buf 20 build.msgPort
  let buf := copyIn buf 22 build.msgPort
  let buf := copyIn buf 24 (ofBe 2 ((len + udpHdrLen) % 65536))
  let buf := copyIn buf 26 (zero 2)
  let buf := text.copy len buf
  ipHeaderChecksum { ip with ipPacketBuf := buf, ipPktLen := (len + ipUdpHdrLen) % 65536 }

/-! ## Parsing -/

/-- `icmp_parse_reply`: `true` is `A = 0`. -/
def icmpParseReply (tp : TpMem) : Bool :=
  byte tp.tpPacket 25 == ipProtoIcmp && byte tp.tpPacket 36 == 0 &&
    slice tp.tpPacket 40 2 == wgIcmpId

/-- `udp_tunnel_parse`: `true` is `A = 0`. `msg_recv_ptr` and `msg_recv_len` are written before the
checks. -/
def udpTunnelParse (build : Build) (tp : TpMem) (ip : IpMem) : Bool × IpMem :=
  if byte tp.tpPacket 25 = ipProtoUdp ∧ slice tp.tpPacket 38 2 = build.msgPort then
    let udpLen := be (slice tp.tpPacket 40 2)
    let ip := { ip with
      msgRecvPtr := some (16 + ipUdpHdrLen)
      msgRecvLen := (udpLen + 65536 - udpHdrLen) % 65536 }
    (decide (udpHdrLen ≤ udpLen ∧ ip.msgRecvLen ≤ msgTextMax build ∧
      ip.msgRecvLen + ipUdpHdrLen ≤ tp.tpPayloadLen), ip)
  else (false, ip)

/-! ## Printing -/

/-- The filter of `@emit`: bytes outside `$20`–`$7E` become a dot. -/
def printable (b : UInt8) : UInt8 := if b < 0x20 then 0x2e else if b < 0x7f then b else 0x2e

/-- `@emit`: the filter is on unless `zp_tmp1` is zero. -/
def emit (zpTmp1 b : UInt8) : UInt8 := if zpTmp1 = 0 then b else printable b

/-- The addresses `(zp_ptr1),y` of `count` rounds of `@page` or `@lo`, from `y` on. -/
def emitRun (zpPtr1 : Nat) : Nat → Nat → List Nat
  | _, 0 => []
  | y, count + 1 => (zpPtr1 + y) :: emitRun zpPtr1 (y + 1) count

/-- The addresses of whole pages, with `zp_ptr1` behind them. -/
def emitPages : Nat → Nat → List Nat × Nat
  | zpPtr1, 0 => ([], zpPtr1)
  | zpPtr1, pages + 1 =>
      let r := emitPages (zpPtr1 + 256) pages
      (emitRun zpPtr1 0 256 ++ r.1, r.2)

/-- The addresses `print_buf16` reads, in order: whole pages, then the remainder. -/
def printBuf16Reads (zpPtr1 len : Nat) : List Nat :=
  let r := emitPages zpPtr1 (len / 256)
  r.1 ++ emitRun r.2 0 (len % 256)

/-- What `print_buf16` sends to `chrout`, for a pointer into `tp_packet`. -/
def printBuf16 (zpTmp1 : UInt8) (tpPacket : Bytes udpRecvBufSize) (zpPtr1 len : Nat) : List UInt8 :=
  (printBuf16Reads zpPtr1 len).map fun a => emit zpTmp1 (byte tpPacket a)

end C64WireGuard
