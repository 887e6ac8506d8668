import C64WireGuard.Lib.InternetChecksum
import C64WireGuard.MainLoop

/-!
# The packets of `ip_build.s`

`echoPacket` and `messagePacket` are the two datagrams as lists of bytes. Each builder leaves its own at
the front of `ip_packet_buf`, whatever was there before (`slice_icmpBuildEcho`,
`slice_udpTunnelBuild`), but only `udp_tunnel_build` always announces its length
(`ipPktLen_exact_iff`). A message comes out of both receivers as it went in
(`udpTunnelBuild_roundTrip`).
-/

namespace C64WireGuard

open Bytes InternetChecksum

variable {σ : Type}

/-! ## The header checksum -/

theorem toNat_complement (b : UInt8) : (b ^^^ 0xff).toNat = 255 - b.toNat := by
  obtain ⟨⟨n⟩⟩ := b
  revert n
  decide +kernel

/-- The loop is the one's complement sum of the words, low byte first. -/
theorem ipChecksumLoop_eq {bs : List UInt8} (heven : bs.length % 2 = 0) {sum : Nat}
    (hsum : sum < 65536) : ipChecksumLoop bs sum = (wordsLe bs).foldl onesAdd sum := by
  induction bs using wordsLe.induct generalizing sum with
  | case1 a b bs ih =>
      have ha := a.toNat_lt
      have hb := b.toNat_lt
      have heven' : bs.length % 2 = 0 := by
        simp only [List.length_cons] at heven
        omega
      rw [ipChecksumLoop, wordsLe, List.foldl_cons, onesAdd, ← Nat.add_assoc]
      split
      · rename_i hlt
        exact ih heven' hlt
      · -- the carry never leaves the sum zero, so the loop does not end early
        have hwrap : (sum + a.toNat + 256 * b.toNat + 1) % 65536 =
            sum + a.toNat + 256 * b.toNat - 65535 := by omega
        rw [if_neg (by omega), hwrap]
        exact ih heven' (by omega)
  | case2 a => simp at heven
  | case3 => rfl

/-- The checksum, low byte first, is the complement of the sum. -/
theorem ipChecksum_spec {bs : List UInt8} (heven : bs.length % 2 = 0) :
    (byte (ipChecksum bs) 0).toNat + 256 * (byte (ipChecksum bs) 1).toNat =
      65535 - onesSum (wordsLe bs) := by
  have hlt := (foldl_onesAdd (wordsLe_lt bs) (show 0 < 65536 by decide)).1
  have hloop := ipChecksumLoop_eq heven (show 0 < 65536 by decide)
  have h₀ : byte (ipChecksum bs) 0 = UInt8.ofNat (ipChecksumLoop bs 0) ^^^ 0xff := rfl
  have h₁ : byte (ipChecksum bs) 1 = UInt8.ofNat (ipChecksumLoop bs 0 / 256) ^^^ 0xff := rfl
  rw [h₀, h₁, toNat_complement, toNat_complement, UInt8.toNat_ofNat', UInt8.toNat_ofNat', hloop]
  change onesSum (wordsLe bs) < 65536 at hlt
  change 255 - onesSum (wordsLe bs) % 256 + 256 * (255 - onesSum (wordsLe bs) / 256 % 256) = _
  omega

-- A header of 60 bytes in all, carrying ICMP from 10.8.0.2 to 10.8.0.1.
example : ipChecksum [0x45, 0, 0, 60, 0, 0, 0x40, 0, 0x40, 1, 0, 0, 10, 8, 0, 2, 10, 8, 0, 1] =
    #v[0x26, 0xaf] := by decide +kernel

/-- The twenty bytes of a header. -/
def headerBytes (totalLen : Bytes 2) (proto : UInt8) (cksum : Bytes 2) (cfg : CfgMem) : List UInt8 :=
  [0x45, 0] ++ totalLen.toList ++ [0, 0, 0x40, 0, 0x40, proto] ++ cksum.toList ++
    cfg.tunnelIp.toList ++ cfg.pingTargetIp.toList

/-- The checksum `ip_checksum` gives a header. -/
def headerChecksum (totalLen : Bytes 2) (proto : UInt8) (cfg : CfgMem) : Bytes 2 :=
  ipChecksum (headerBytes totalLen proto (zero 2) cfg)

theorem length_headerBytes (totalLen : Bytes 2) (proto : UInt8) (cksum : Bytes 2) (cfg : CfgMem) :
    (headerBytes totalLen proto cksum cfg).length = 20 := by
  simp [headerBytes]

/-- Every header that carries its checksum verifies. -/
theorem verifies_headerBytes (totalLen : Bytes 2) (proto : UInt8) (cfg : CfgMem) :
    Verifies (headerBytes totalLen proto (headerChecksum totalLen proto cfg) cfg) := by
  have hsplit : ∀ cksum, headerBytes totalLen proto cksum cfg =
      ([0x45, 0] ++ totalLen.toList ++ [0, 0, 0x40, 0, 0x40, proto]) ++
        byte cksum 0 :: byte cksum 1 :: (cfg.tunnelIp.toList ++ cfg.pingTargetIp.toList) := by
    intro cksum
    rw [headerBytes, toList_two cksum]
    simp
  have heven : (headerBytes totalLen proto (zero 2) cfg).length % 2 = 0 := by
    rw [length_headerBytes]
  have hspec := ipChecksum_spec heven
  rw [hsplit (zero 2), byte_zero, byte_zero] at hspec
  rw [hsplit]
  refine verifies_complement (by simp) ?_
  rw [headerChecksum, hsplit (zero 2), byte_zero, byte_zero]
  exact hspec

/-! ## The header of a packet -/

theorem lt_udpRecvBufSize {i : Nat} (h : i < 28) : i < udpRecvBufSize :=
  Nat.lt_of_lt_of_le h (by decide)

theorem slice_ipHeader_checksum (totalLen : Bytes 2) (proto : UInt8) (cfg : CfgMem)
    (buf : Bytes udpRecvBufSize) (cksum : Bytes 2) :
    (slice (copyIn (ipHeader totalLen proto cfg buf) 10 cksum) 0 20).toList =
      headerBytes totalLen proto cksum cfg := by
  have htemplate : (List.range 20).map (byte ipHdrTemplate) =
      [0x45, 0, 0, 0, 0, 0, 0x40, 0, 0x40, 0, 0, 0, 0, 0, 0, 0, 0, 0, 0, 0] := by decide
  simp only [List.range_succ, List.range_zero, List.nil_append, List.cons_append, List.map_cons,
    List.map_nil, List.cons.injEq, and_true] at htemplate
  rw [toList_slice_range, headerBytes, toList_two, toList_two, toList_four, toList_four]
  simp [List.range_succ, ipHeader, lt_udpRecvBufSize, htemplate]

theorem slice_ipHeader (totalLen : Bytes 2) (proto : UInt8) (cfg : CfgMem)
    (buf : Bytes udpRecvBufSize) :
    (slice (ipHeader totalLen proto cfg buf) 0 20).toList =
      headerBytes totalLen proto (zero 2) cfg := by
  have hblank : copyIn (ipHeader totalLen proto cfg buf) 10 (zero 2) =
      ipHeader totalLen proto cfg buf := by
    apply ext_byte
    intro i hi
    rw [byte_copyIn]
    split
    · rename_i h
      obtain rfl | rfl : i = 10 ∨ i = 11 := by omega
      · simp [ipHeader, lt_udpRecvBufSize]
      · simp [ipHeader, lt_udpRecvBufSize]
    · rfl
  rw [← slice_ipHeader_checksum totalLen proto cfg buf (zero 2), hblank]

/-- The checksum goes into a buffer whose first twenty bytes are a fresh header. -/
theorem slice_ipHeaderChecksum {totalLen : Bytes 2} {proto : UInt8} {cfg : CfgMem}
    {buf : Bytes udpRecvBufSize} {ip : IpMem}
    (h : slice ip.ipPacketBuf 0 20 = slice (ipHeader totalLen proto cfg buf) 0 20) :
    (slice (ipHeaderChecksum ip).ipPacketBuf 0 20).toList =
      headerBytes totalLen proto (headerChecksum totalLen proto cfg) cfg := by
  have hsum : ipChecksum (slice ip.ipPacketBuf 0 20).toList = headerChecksum totalLen proto cfg := by
    rw [h, slice_ipHeader, headerChecksum]
  have hbuf : (ipHeaderChecksum ip).ipPacketBuf =
      copyIn ip.ipPacketBuf 10 (ipChecksum (slice ip.ipPacketBuf 0 20).toList) := rfl
  rw [hbuf, hsum, slice_copyIn_front _ _ _ (by decide), h, ← slice_copyIn_front _ _ _ (by decide),
    slice_ipHeader_checksum]

/-- And leaves what is behind the header alone. -/
theorem slice_ipHeaderChecksum_behind (ip : IpMem) {off m : Nat} (h : 20 ≤ off) :
    slice (ipHeaderChecksum ip).ipPacketBuf off m = slice ip.ipPacketBuf off m :=
  slice_copyIn_disjoint _ _ (.inl (by omega))

/-! ## Echo requests -/

/-- A datagram: a header with its checksum, and what it carries. -/
def ipDatagram (totalLen : Bytes 2) (proto : UInt8) (cfg : CfgMem) (body : List UInt8) : List UInt8 :=
  headerBytes totalLen proto (headerChecksum totalLen proto cfg) cfg ++ body

/-- An ICMP echo request. -/
def icmpEcho (cksum seq : Bytes 2) : List UInt8 :=
  [8, 0] ++ cksum.toList ++ wgIcmpId.toList ++ seq.toList

/-- The packet `icmp_build_echo` builds. -/
def echoPacket (cfg : CfgMem) (seq : Bytes 2) : List UInt8 :=
  ipDatagram (ofBe 2 28) ipProtoIcmp cfg (icmpEcho (ipChecksum (icmpEcho (zero 2) seq)) seq)

theorem slice_echoStage (cfg : CfgMem) (ip : IpMem) (cksum : Bytes 2) :
    (slice (copyIn (echoStage cfg ip) 22 cksum) 20 8).toList = icmpEcho cksum ip.pingSeq := by
  have htype : (List.range 4).map (byte (#v[8, 0, 0, 0] : Bytes 4)) = [8, 0, 0, 0] := by decide
  simp only [List.range_succ, List.range_zero, List.nil_append, List.cons_append, List.map_cons,
    List.map_nil, List.cons.injEq, and_true] at htype
  rw [toList_slice_range, icmpEcho, toList_two, toList_two, toList_two]
  simp [List.range_succ, echoStage, lt_udpRecvBufSize, htype]

/-- **What `icmp_build_echo` leaves in `ip_packet_buf`**: the request, whatever was there. -/
theorem slice_icmpBuildEcho (cfg : CfgMem) (ip : IpMem) :
    (slice (icmpBuildEcho cfg ip).ipPacketBuf 0 28).toList = echoPacket cfg ip.pingSeq := by
  have hblank : copyIn (echoStage cfg ip) 22 (zero 2) = echoStage cfg ip := by
    apply ext_byte
    intro i hi
    rw [byte_copyIn]
    split
    · rename_i h
      obtain rfl | rfl : i = 22 ∨ i = 23 := by omega
      · simp [echoStage, lt_udpRecvBufSize]
        rfl
      · simp [echoStage, lt_udpRecvBufSize]
        rfl
    · rfl
  have hsum : ipChecksum (slice (echoStage cfg ip) 20 8).toList =
      ipChecksum (icmpEcho (zero 2) ip.pingSeq) := by
    rw [← slice_echoStage cfg ip (zero 2), hblank]
  have hbuf : (icmpBuildEcho cfg ip).ipPacketBuf = (ipHeaderChecksum { ip with
      ipPacketBuf := copyIn (echoStage cfg ip) 22
        (ipChecksum (icmpEcho (zero 2) ip.pingSeq)) }).ipPacketBuf := by
    rw [← hsum]
    rfl
  have hhead : slice (copyIn (echoStage cfg ip) 22 (ipChecksum (icmpEcho (zero 2) ip.pingSeq))) 0 20 =
      slice (ipHeader (ofBe 2 28) ipProtoIcmp cfg ip.ipPacketBuf) 0 20 := by
    simp only [echoStage, slice_copyIn_disjoint, Nat.zero_add, Nat.reduceLeDiff, or_true]
  rw [hbuf, toList_slice_add (m := 20) (k := 8) _ (by decide), slice_ipHeaderChecksum hhead,
    slice_ipHeaderChecksum_behind _ (by decide), slice_echoStage, echoPacket, ipDatagram]

/-! ## Messages -/

/-- A UDP datagram between two ports, without a checksum. -/
def udpDatagram (port : Bytes 2) (text : List UInt8) : List UInt8 :=
  port.toList ++ port.toList ++ (ofBe 2 (udpHdrLen + text.length)).toList ++ [0, 0] ++ text

/-- The packet `udp_tunnel_build` builds. -/
def messagePacket (build : Build) (cfg : CfgMem) (text : List UInt8) : List UInt8 :=
  ipDatagram (ofBe 2 (ipUdpHdrLen + text.length)) ipProtoUdp cfg (udpDatagram build.msgPort text)

theorem length_messagePacket (build : Build) (cfg : CfgMem) (text : List UInt8) :
    (messagePacket build cfg text).length = ipUdpHdrLen + text.length := by
  simp [messagePacket, ipDatagram, udpDatagram, length_headerBytes, ipUdpHdrLen]
  omega

/-- The text length after the clamp. -/
def textLen (build : Build) (len : Nat) : Nat :=
  if len ≤ msgTextMax build then len else msgTextMax build

theorem textLen_le (build : Build) (len : Nat) : textLen build len ≤ msgTextMax build := by
  unfold textLen
  split
  · assumption
  · exact Nat.le_refl _

/-- Header and text fit the buffer. -/
theorem textLen_fits (build : Build) (len : Nat) :
    ipUdpHdrLen + textLen build len ≤ build.wgMtu ∧ build.wgMtu ≤ udpRecvBufSize := by
  have hle := textLen_le build len
  have hge := build.wgMtu_ge
  have hmax := build.wgMtu_le
  unfold msgTextMax ipUdpHdrLen at *
  omega

/-- The text a pointer denotes when the builder is called. -/
def TextPtr.bytes (buf : Bytes udpRecvBufSize) (len : Nat) : TextPtr → Bytes len
  | .elsewhere text => slice text 0 len
  | .ipPacketBuf off => slice buf off len

/-- The text is not under the header that is about to be written. -/
def TextPtr.Clear (len : Nat) : TextPtr → Prop
  | .elsewhere _ => True
  | .ipPacketBuf off => ipUdpHdrLen ≤ off ∧ off + len ≤ udpRecvBufSize

instance (len : Nat) : (text : TextPtr) → Decidable (text.Clear len)
  | .elsewhere _ => .isTrue trivial
  | .ipPacketBuf off => inferInstanceAs (Decidable (ipUdpHdrLen ≤ off ∧ off + len ≤ udpRecvBufSize))

/-- `ip_packet_buf` before the text is copied. -/
def messageStage (build : Build) (len : Nat) (cfg : CfgMem) (ip : IpMem) : Bytes udpRecvBufSize :=
  let buf := ipHeader (ofBe 2 ((len + ipUdpHdrLen) % 65536)) ipProtoUdp cfg ip.ipPacketBuf
  let buf := copyIn buf 20 build.msgPort
  let buf := copyIn buf 22 build.msgPort
  let buf := copyIn buf 24 (ofBe 2 ((len + udpHdrLen) % 65536))
  copyIn buf 26 (zero 2)

theorem udpTunnelBuild_eq (build : Build) (text : TextPtr) (len : Nat) (cfg : CfgMem) (ip : IpMem) :
    udpTunnelBuild build text len cfg ip =
      ipHeaderChecksum { ip with
        ipPacketBuf := text.copy (textLen build len) (messageStage build (textLen build len) cfg ip)
        ipPktLen := (textLen build len + ipUdpHdrLen) % 65536 } := rfl

theorem slice_messageStage (build : Build) {len : Nat} (hlen : len + ipUdpHdrLen < 65536)
    (cfg : CfgMem) (ip : IpMem) :
    (slice (messageStage build len cfg ip) 20 8).toList =
      build.msgPort.toList ++ build.msgPort.toList ++ (ofBe 2 (udpHdrLen + len)).toList ++ [0, 0] := by
  have hmod : (len + udpHdrLen) % 65536 = udpHdrLen + len := by
    unfold udpHdrLen ipUdpHdrLen at *
    omega
  rw [toList_slice_range, toList_two, toList_two, messageStage, hmod]
  simp [List.range_succ, lt_udpRecvBufSize]

/-- Behind the header nothing has changed yet. -/
theorem byte_messageStage (build : Build) (len : Nat) (cfg : CfgMem) (ip : IpMem) {i : Nat}
    (h : ipUdpHdrLen ≤ i) : byte (messageStage build len cfg ip) i = byte ip.ipPacketBuf i := by
  unfold ipUdpHdrLen at h
  have h₁ : ¬ i < 28 := by omega
  have h₂ : ¬ i < 26 := by omega
  have h₃ : ¬ i < 24 := by omega
  have h₄ : ¬ i < 22 := by omega
  have h₅ : ¬ i < 20 := by omega
  have h₆ : ¬ i < 16 := by omega
  have h₇ : ¬ i < 12 := by omega
  have h₈ : ¬ i < 4 := by omega
  have h₉ : ¬ i = 9 := by omega
  simp [messageStage, ipHeader, h₁, h₂, h₃, h₄, h₅, h₆, h₇, h₈, h₉]

/-- The copy is one write of the text, even when it is read from the buffer it goes to. -/
theorem TextPtr.copy_eq {text : TextPtr} {len : Nat} (h : text.Clear len)
    {buf stage : Bytes udpRecvBufSize}
    (hstage : ∀ i, ipUdpHdrLen ≤ i → byte stage i = byte buf i) :
    text.copy len stage = copyIn stage ipUdpHdrLen (text.bytes buf len) := by
  cases text with
  | elsewhere text => exact copy16_eq stage ipUdpHdrLen text 0 len
  | ipPacketBuf off =>
      obtain ⟨hoff, hend⟩ := h
      have hbytes : slice stage off len = slice buf off len := by
        apply ext_byte
        intro i hi
        rw [byte_slice, byte_slice, if_pos hi, if_pos hi, hstage (off + i) (by omega)]
      rw [TextPtr.copy, move16_eq, moveRun_eq hoff hend, hbytes]
      rfl

/-- Wherever it is read from, the text does not reach the header. -/
theorem TextPtr.slice_copy (text : TextPtr) (len : Nat) (buf : Bytes udpRecvBufSize) :
    slice (text.copy len buf) 0 20 = slice buf 0 20 := by
  cases text with
  | elsewhere text =>
      rw [TextPtr.copy, copy16_eq]
      exact slice_copyIn_disjoint _ _ (.inr (by decide))
  | ipPacketBuf off =>
      rw [TextPtr.copy, move16_eq]
      exact slice_moveRun_disjoint (by decide) _

/-- **What `udp_tunnel_build` leaves in `ip_packet_buf`**: the message, whatever was there, and behind
it what was there. -/
theorem slice_udpTunnelBuild (build : Build) {text : TextPtr} {len : Nat}
    (h : text.Clear (textLen build len)) (cfg : CfgMem) (ip : IpMem) :
    (slice (udpTunnelBuild build text len cfg ip).ipPacketBuf 0
        (ipUdpHdrLen + textLen build len)).toList =
      messagePacket build cfg (text.bytes ip.ipPacketBuf (textLen build len)).toList ∧
    (∀ i, ipUdpHdrLen + textLen build len ≤ i →
      byte (udpTunnelBuild build text len cfg ip).ipPacketBuf i = byte ip.ipPacketBuf i) := by
  have hfits := textLen_fits build len
  rw [udpTunnelBuild_eq]
  generalize textLen build len = k at *
  have hlt : k + ipUdpHdrLen < 65536 := by
    unfold udpRecvBufSize at hfits
    omega
  have hmod : (k + ipUdpHdrLen) % 65536 = ipUdpHdrLen + k := by omega
  have hcopy := TextPtr.copy_eq h fun i => byte_messageStage build k cfg ip (i := i)
  have hhead : slice (text.copy k (messageStage build k cfg ip)) 0 20 =
      slice (ipHeader (ofBe 2 (ipUdpHdrLen + k)) ipProtoUdp cfg ip.ipPacketBuf) 0 20 := by
    rw [hcopy, slice_copyIn_disjoint _ _ (.inr (by decide)), messageStage, hmod]
    simp only [slice_copyIn_disjoint, Nat.zero_add, Nat.reduceLeDiff, or_true]
  constructor
  · have hsplit : ipUdpHdrLen + k = 20 + (8 + k) := by
      unfold ipUdpHdrLen
      omega
    have hbody : ∀ b : Bytes udpRecvBufSize, (slice b 20 (8 + k)).toList =
        (slice b 20 8).toList ++ (slice b ipUdpHdrLen k).toList := by
      intro b
      refine toList_slice_add b ?_
      omega
    have htext : slice (copyIn (messageStage build k cfg ip) ipUdpHdrLen
        (text.bytes ip.ipPacketBuf k)) ipUdpHdrLen k = text.bytes ip.ipPacketBuf k :=
      slice_copyIn_self _ _ (by omega)
    have hports : slice (copyIn (messageStage build k cfg ip) ipUdpHdrLen
        (text.bytes ip.ipPacketBuf k)) 20 8 = slice (messageStage build k cfg ip) 20 8 :=
      slice_copyIn_disjoint _ _ (.inr (by decide))
    conv_lhs => rw [hsplit]
    rw [toList_slice_add (m := 20) (k := 8 + k) _ (by omega), slice_ipHeaderChecksum hhead,
      slice_ipHeaderChecksum_behind _ (by decide), Nat.zero_add, hcopy, hbody, htext, hports,
      slice_messageStage build hlt]
    simp [messagePacket, ipDatagram, udpDatagram]
  · intro i hi
    have hbuf : (ipHeaderChecksum { ip with
        ipPacketBuf := text.copy k (messageStage build k cfg ip)
        ipPktLen := (k + ipUdpHdrLen) % 65536 }).ipPacketBuf =
      copyIn (text.copy k (messageStage build k cfg ip)) 10
        (ipChecksum (slice (text.copy k (messageStage build k cfg ip)) 0 20).toList) := rfl
    have h28 : ipUdpHdrLen = 28 := rfl
    rw [hbuf, byte_copyIn, if_neg (by omega), hcopy, byte_copyIn, if_neg (by omega),
      byte_messageStage build k cfg ip (by omega)]

/-! ## Both receivers -/

/-- `strip_tunnel_headers` of the host. -/
def stripTunnelHeaders (plaintext : List UInt8) : List UInt8 :=
  if 28 ≤ plaintext.length ∧ plaintext.getD 0 0 >>> 4 = 4 ∧ plaintext.getD 9 0 = 17 then
    if beNat ((plaintext.drop 2).take 2) = plaintext.length then plaintext.drop 28 else plaintext
  else plaintext

/-- The text `msg_recv_ptr` and `msg_recv_len` denote. -/
def receivedText (tp : TpMem) (ip : IpMem) : List UInt8 :=
  (slice tp.tpPacket (ip.msgRecvPtr.getD 0) ip.msgRecvLen).toList

/-- An IPv4 packet without options that carries `n` bytes of text in a UDP datagram. -/
structure TunnelMessage (build : Build) (cfg : CfgMem) (n : Nat) (pkt : List UInt8) : Prop where
  length : pkt.length = 28 + n
  version : pkt.getD 0 0 = 0x45
  totalLength : beNat ((pkt.drop 2).take 2) = 28 + n
  protocol : pkt.getD 9 0 = ipProtoUdp
  checksum : Verifies (pkt.take 20)
  source : (pkt.drop 12).take 4 = cfg.tunnelIp.toList
  destination : (pkt.drop 16).take 4 = cfg.pingTargetIp.toList
  ports : (pkt.drop 20).take 2 = build.msgPort.toList ∧ (pkt.drop 22).take 2 = build.msgPort.toList
  udpLength : beNat ((pkt.drop 24).take 2) = 8 + n

theorem beNat_ofBe {x : Nat} (h : x < 65536) : beNat [byte (ofBe 2 x) 0, byte (ofBe 2 x) 1] = x := by
  have hbe := be_ofBe 2 x
  rw [be, toList_two] at hbe
  rw [hbe]
  omega

/-- The bytes of a message, one by one up to the text. -/
theorem messagePacket_eq (build : Build) (cfg : CfgMem) (text : List UInt8) :
    ∃ total udp cksum : Bytes 2, total = ofBe 2 (ipUdpHdrLen + text.length) ∧
      udp = ofBe 2 (udpHdrLen + text.length) ∧ cksum = headerChecksum total ipProtoUdp cfg ∧
      messagePacket build cfg text =
        [0x45, 0, byte total 0, byte total 1, 0, 0, 0x40, 0, 0x40, ipProtoUdp, byte cksum 0,
          byte cksum 1, byte cfg.tunnelIp 0, byte cfg.tunnelIp 1, byte cfg.tunnelIp 2,
          byte cfg.tunnelIp 3, byte cfg.pingTargetIp 0, byte cfg.pingTargetIp 1,
          byte cfg.pingTargetIp 2, byte cfg.pingTargetIp 3, byte build.msgPort 0,
          byte build.msgPort 1, byte build.msgPort 0, byte build.msgPort 1, byte udp 0, byte udp 1,
          0, 0] ++ text := by
  refine ⟨_, _, _, rfl, rfl, rfl, ?_⟩
  rw [messagePacket, ipDatagram, udpDatagram, headerBytes, toList_two, toList_two, toList_two,
    toList_two, toList_four, toList_four]
  rfl

theorem messagePacket_tunnelMessage (build : Build) (cfg : CfgMem) {text : List UInt8}
    (hlen : 28 + text.length < 65536) :
    TunnelMessage build cfg text.length (messagePacket build cfg text) := by
  have hhead : (messagePacket build cfg text).take 20 = headerBytes (ofBe 2 (28 + text.length))
      ipProtoUdp (headerChecksum (ofBe 2 (28 + text.length)) ipProtoUdp cfg) cfg :=
    List.take_left' (length_headerBytes _ _ _ _)
  have hlength := length_messagePacket build cfg text
  have hsum := verifies_headerBytes (ofBe 2 (28 + text.length)) ipProtoUdp cfg
  rw [← hhead] at hsum
  obtain ⟨total, udp, cksum, rfl, rfl, -, heq⟩ := messagePacket_eq build cfg text
  rw [heq] at hsum hlength ⊢
  exact {
    length := hlength
    version := rfl
    totalLength := beNat_ofBe hlen
    protocol := rfl
    checksum := hsum
    source := (toList_four _).symm
    destination := (toList_four _).symm
    ports := ⟨(toList_two _).symm, (toList_two _).symm⟩
    udpLength := beNat_ofBe (by unfold udpHdrLen; omega) }

/-- The host prints the text. -/
theorem stripTunnelHeaders_message (build : Build) (cfg : CfgMem) {text : List UInt8}
    (hlen : 28 + text.length < 65536) :
    stripTunnelHeaders (messagePacket build cfg text) = text := by
  obtain ⟨hlength, hversion, htotal, hproto, -⟩ := messagePacket_tunnelMessage build cfg hlen
  rw [stripTunnelHeaders, hversion, hproto, htotal, hlength, if_pos ⟨by omega, by decide, rfl⟩,
    if_pos rfl]
  obtain ⟨total, udp, cksum, -, -, -, heq⟩ := messagePacket_eq build cfg text
  rw [heq]
  rfl

/-- And so does the program. -/
theorem udpTunnelParse_message {build : Build} {cfg : CfgMem} {text : List UInt8}
    (hlen : text.length ≤ msgTextMax build) {tp : TpMem}
    (hpayload : tp.tpPayloadLen = 28 + text.length)
    (hpkt : (slice tp.tpPacket 16 (28 + text.length)).toList = messagePacket build cfg text)
    (ip : IpMem) :
    udpTunnelParse build tp ip =
        (true, { ip with msgRecvPtr := some 44, msgRecvLen := text.length }) ∧
      (slice tp.tpPacket 44 text.length).toList = text := by
  have hmtu := build.wgMtu_le
  have hmax : msgTextMax build = build.wgMtu - 28 := rfl
  have hsize : udpRecvBufSize = 1500 := rfl
  obtain ⟨total, udp, cksum, -, hudp, -, heq⟩ := messagePacket_eq build cfg text
  rw [heq] at hpkt
  have hbyte : ∀ i, i < 28 + text.length → byte tp.tpPacket (16 + i) =
      (slice tp.tpPacket 16 (28 + text.length)).toList.getD i 0 := by
    intro i hi
    rw [getD_toList, byte_slice, if_pos hi]
  rw [hpkt] at hbyte
  have hproto : byte tp.tpPacket 25 = ipProtoUdp := hbyte 9 (by omega)
  have hport : slice tp.tpPacket 38 2 = build.msgPort := by
    apply toList_inj.mp
    rw [toList_slice_range, toList_two]
    exact congrArg₂ (fun a b => [a, b]) (hbyte 22 (by omega)) (hbyte 23 (by omega))
  have hudpLen : be (slice tp.tpPacket 40 2) = 8 + text.length := by
    have hval := beNat_ofBe (x := 8 + text.length) (by omega)
    have hbytes : (slice tp.tpPacket 40 2).toList = [byte udp 0, byte udp 1] := by
      rw [toList_slice_range]
      exact congrArg₂ (fun a b => [a, b]) (hbyte 24 (by omega)) (hbyte 25 (by omega))
    rw [be, hbytes, hudp]
    exact hval
  have htext : (slice tp.tpPacket 44 text.length).toList = text := by
    have hsplit : (slice tp.tpPacket 16 (28 + text.length)).toList =
        (slice tp.tpPacket 16 28).toList ++ (slice tp.tpPacket 44 text.length).toList :=
      toList_slice_add tp.tpPacket (by omega)
    rw [hpkt] at hsplit
    exact (List.append_inj_right hsplit (by simp)).symm
  refine ⟨?_, htext⟩
  have hrecv : (8 + text.length + 65536 - udpHdrLen) % 65536 = text.length := by
    unfold udpHdrLen
    omega
  have hbounds : udpHdrLen ≤ 8 + text.length ∧ text.length ≤ msgTextMax build ∧
      text.length + ipUdpHdrLen ≤ tp.tpPayloadLen := by
    rw [hpayload]
    exact ⟨Nat.le_add_right _ _, hlen, Nat.le_of_eq (Nat.add_comm _ _)⟩
  rw [udpTunnelParse, if_pos ⟨hproto, hport⟩, hudpLen]
  dsimp only
  rw [hrecv, decide_eq_true hbounds]
  rfl

/-- **A message comes out of both receivers as it went in**: typed in place or read from elsewhere, and
clamped to `MSG_TEXT_MAX`, with nothing written behind `ip_packet_buf` but the length and the checksum
cells. -/
theorem udpTunnelBuild_roundTrip (build : Build) {text : TextPtr} {len : Nat}
    (h : text.Clear (textLen build len)) (cfg : CfgMem) (ip : IpMem) :
    let sent := (text.bytes ip.ipPacketBuf (textLen build len)).toList
    let ip' := udpTunnelBuild build text len cfg ip
    let pkt := (slice ip'.ipPacketBuf 0 ip'.ipPktLen).toList
    ip'.ipPktLen = 28 + textLen build len ∧ TunnelMessage build cfg (textLen build len) pkt ∧
      (∀ tp recv, tp.tpPayloadLen = ip'.ipPktLen → (slice tp.tpPacket 16 ip'.ipPktLen).toList = pkt →
        (udpTunnelParse build tp recv).1 = true ∧
          receivedText tp (udpTunnelParse build tp recv).2 = sent) ∧
      stripTunnelHeaders pkt = sent ∧
      (∀ i, build.wgMtu ≤ i → byte ip'.ipPacketBuf i = byte ip.ipPacketBuf i) ∧
      ip' = { ip with
        ipPacketBuf := ip'.ipPacketBuf, ipPktLen := 28 + textLen build len,
        ipCksumResult := ip'.ipCksumResult } := by
  have hfits := textLen_fits build len
  have hle := textLen_le build len
  obtain ⟨hpkt, hbehind⟩ := slice_udpTunnelBuild build h cfg ip
  have hlen : (udpTunnelBuild build text len cfg ip).ipPktLen = ipUdpHdrLen + textLen build len := by
    rw [udpTunnelBuild_eq]
    change (textLen build len + ipUdpHdrLen) % 65536 = _
    unfold udpRecvBufSize at hfits
    omega
  have hframe : udpTunnelBuild build text len cfg ip = { ip with
      ipPacketBuf := (udpTunnelBuild build text len cfg ip).ipPacketBuf
      ipPktLen := ipUdpHdrLen + textLen build len
      ipCksumResult := (udpTunnelBuild build text len cfg ip).ipCksumResult } := by
    rw [← hlen]
    rfl
  have hsent : (text.bytes ip.ipPacketBuf (textLen build len)).toList.length = textLen build len :=
    Vector.length_toList
  intro sent ip' pkt
  have hpkt' : pkt = messagePacket build cfg sent := by
    show (slice ip'.ipPacketBuf 0 ip'.ipPktLen).toList = _
    rw [show ip'.ipPktLen = _ from hlen]
    exact hpkt
  have hsmall : 28 + sent.length < 65536 := by
    rw [hsent]
    unfold ipUdpHdrLen udpRecvBufSize at hfits
    omega
  rw [hpkt', show ip'.ipPktLen = _ from hlen]
  refine ⟨rfl, ?_, ?_, stripTunnelHeaders_message build cfg hsmall,
    fun i hi => hbehind i (Nat.le_trans hfits.1 hi), hframe⟩
  · have hmsg := messagePacket_tunnelMessage build cfg hsmall
    rw [hsent] at hmsg
    exact hmsg
  · intro tp recv hpayload hrecv
    rw [← hsent] at hpayload hrecv hle
    obtain ⟨hparse, htext⟩ := udpTunnelParse_message hle hpayload hrecv recv
    rw [hparse]
    exact ⟨rfl, htext⟩

/-- `IpMem` at program start. -/
def IpMem.start : IpMem := (Machine.start 0 () 0 : Machine Unit).ip

/-- `HI`, typed in place. -/
def IpMem.typed : IpMem :=
  { IpMem.start with ipPacketBuf := copyIn (zero _) 28 (#v[0x48, 0x49] : Bytes 2) }

/-- What the host makes of the packet in `ip_packet_buf`. -/
def hostText (ip : IpMem) : List UInt8 :=
  stripTunnelHeaders (slice ip.ipPacketBuf 0 ip.ipPktLen).toList

/-- `HI`, from elsewhere and typed in place. -/
theorem udpTunnelBuild_roundTrip_hi :
    hostText (udpTunnelBuild defaultBuild (.elsewhere #v[0x48, 0x49]) 2 .start .start) =
        [0x48, 0x49] ∧
      hostText (udpTunnelBuild defaultBuild (.ipPacketBuf 28) 2 .start .typed) = [0x48, 0x49] := by
  have hclear : (TextPtr.elsewhere #v[0x48, 0x49]).Clear (textLen defaultBuild 2) := trivial
  have hclear' : (TextPtr.ipPacketBuf 28).Clear (textLen defaultBuild 2) := by decide
  have helsewhere := (udpTunnelBuild_roundTrip defaultBuild hclear .start .start).2.2.2.1
  have htyped := (udpTunnelBuild_roundTrip defaultBuild hclear' .start .typed).2.2.2.1
  exact ⟨helsewhere.trans (by decide +kernel), htyped.trans (by decide +kernel)⟩

/-! ## The length that is sent -/

/-- A call of one of the builders. -/
inductive IpCall
  | icmpBuildEcho (cfg : CfgMem)
  | udpTunnelBuild (text : TextPtr) (len : Nat) (cfg : CfgMem)

namespace IpCall

/-- Make the call. -/
def run (build : Build) (ip : IpMem) : IpCall → IpMem
  | .icmpBuildEcho cfg => C64WireGuard.icmpBuildEcho cfg ip
  | .udpTunnelBuild text len cfg => C64WireGuard.udpTunnelBuild build text len cfg ip

/-- The packet the call is to build. -/
def packet (build : Build) (ip : IpMem) : IpCall → List UInt8
  | .icmpBuildEcho cfg => echoPacket cfg ip.pingSeq
  | .udpTunnelBuild text len cfg =>
      messagePacket build cfg (text.bytes ip.ipPacketBuf (textLen build len)).toList

/-- The text, if there is one, is not under the header. -/
def Clear (build : Build) : IpCall → Prop
  | .icmpBuildEcho _ => True
  | .udpTunnelBuild text len _ => text.Clear (textLen build len)

end IpCall

/-- The length of the latest text, newest call first. -/
def latestText (build : Build) : List IpCall → Nat
  | [] => 0
  | .icmpBuildEcho _ :: calls => latestText build calls
  | .udpTunnelBuild _ len _ :: _ => textLen build len

/-- The next call does not inherit a high byte: it is no echo, or the latest text was short. -/
def IpCall.Fresh (build : Build) (calls : List IpCall) : IpCall → Prop
  | .icmpBuildEcho _ => latestText build calls < 228
  | .udpTunnelBuild .. => True

/-- Any calls, newest first, with anything but `ip_pkt_len` written in between. -/
inductive IpRun (build : Build) (ip₀ : IpMem) : List IpCall → IpMem → Prop
  | start : IpRun build ip₀ [] ip₀
  | between {calls : List IpCall} {ip ip' : IpMem} (h : IpRun build ip₀ calls ip)
      (hlen : ip'.ipPktLen = ip.ipPktLen) : IpRun build ip₀ calls ip'
  | call {calls : List IpCall} {ip : IpMem} (h : IpRun build ip₀ calls ip) (c : IpCall) :
      IpRun build ip₀ (c :: calls) (c.run build ip)

/-- `ip_pkt_len` is the total length in the header. -/
def LengthExact (ip : IpMem) : Prop := ip.ipPktLen = be (slice ip.ipPacketBuf 2 2)

/-- The bytes `transport_send` is handed. -/
def stagedPayload (m : Machine σ) : List UInt8 :=
  (slice (payloadBytes m) 0 m.tp.tpPayloadLen).toList

theorem ipPktLen_icmpBuildEcho (cfg : CfgMem) (ip : IpMem) :
    (icmpBuildEcho cfg ip).ipPktLen = ip.ipPktLen / 256 * 256 + 28 := rfl

theorem ipPktLen_udpTunnelBuild (build : Build) (text : TextPtr) (len : Nat) (cfg : CfgMem)
    (ip : IpMem) :
    (udpTunnelBuild build text len cfg ip).ipPktLen = 28 + textLen build len := by
  have hfits := textLen_fits build len
  rw [udpTunnelBuild_eq]
  change (textLen build len + ipUdpHdrLen) % 65536 = _
  unfold udpRecvBufSize ipUdpHdrLen at *
  omega

/-- The high byte of `ip_pkt_len` is that of the latest message. -/
theorem IpRun.ipPktLen {build : Build} {ip₀ ip : IpMem} {calls : List IpCall}
    (h : IpRun build ip₀ calls ip) (hstart : ip₀.ipPktLen = 0) :
    ip.ipPktLen / 256 = (28 + latestText build calls) / 256 := by
  induction h with
  | start => rw [hstart, latestText]
  | between _ hlen ih => rw [hlen, ih]
  | call _ c ih =>
      cases c with
      | icmpBuildEcho cfg =>
          rw [IpCall.run, ipPktLen_icmpBuildEcho, latestText, ← ih]
          omega
      | udpTunnelBuild text len cfg =>
          rw [IpCall.run, ipPktLen_udpTunnelBuild, latestText]

/-- The total length in a header that was just built. -/
theorem be_headerBytes {buf : Bytes udpRecvBufSize} {x : Nat} (hx : x < 65536) {proto : UInt8}
    {cksum : Bytes 2} {cfg : CfgMem}
    (h : (slice buf 0 20).toList = headerBytes (ofBe 2 x) proto cksum cfg) :
    be (slice buf 2 2) = x := by
  have hfield : slice (slice buf 0 20) 2 2 = ofBe 2 x := by
    refine slice_of_toList [0x45, 0] ([0, 0, 0x40, 0, 0x40, proto] ++ cksum.toList ++
      cfg.tunnelIp.toList ++ cfg.pingTargetIp.toList) ?_ rfl
    rw [h, headerBytes]
    simp
  rw [slice_slice _ _ (by decide), Nat.zero_add] at hfield
  rw [hfield, be_ofBe]
  omega

/-- An echo is announced with its own length when the high byte was zero. -/
theorem icmpBuildEcho_exact_iff (cfg : CfgMem) (ip : IpMem) :
    LengthExact (icmpBuildEcho cfg ip) ↔ ip.ipPktLen / 256 = 0 := by
  have hhead : (slice (icmpBuildEcho cfg ip).ipPacketBuf 0 20).toList =
      headerBytes (ofBe 2 28) ipProtoIcmp (headerChecksum (ofBe 2 28) ipProtoIcmp cfg) cfg := by
    have hpkt := slice_icmpBuildEcho cfg ip
    rw [toList_slice_add (m := 20) (k := 8) _ (by decide), echoPacket, ipDatagram] at hpkt
    exact List.append_inj_left hpkt (by rw [Vector.length_toList, length_headerBytes])
  unfold LengthExact
  rw [be_headerBytes (by decide) hhead, ipPktLen_icmpBuildEcho]
  omega

/-- A message always is. -/
theorem udpTunnelBuild_exact (build : Build) (text : TextPtr) (len : Nat) (cfg : CfgMem) (ip : IpMem) :
    LengthExact (udpTunnelBuild build text len cfg ip) := by
  have hfits := textLen_fits build len
  unfold ipUdpHdrLen udpRecvBufSize at hfits
  have hmod : (textLen build len + ipUdpHdrLen) % 65536 = 28 + textLen build len := by
    unfold ipUdpHdrLen
    omega
  have hcopy : slice (text.copy (textLen build len) (messageStage build (textLen build len) cfg ip))
      0 20 = slice (ipHeader (ofBe 2 (28 + textLen build len)) ipProtoUdp cfg ip.ipPacketBuf) 0 20 := by
    rw [TextPtr.slice_copy, messageStage, hmod]
    simp only [slice_copyIn_disjoint, Nat.zero_add, Nat.reduceLeDiff, or_true]
  unfold LengthExact
  rw [ipPktLen_udpTunnelBuild, udpTunnelBuild_eq,
    be_headerBytes (by omega) (slice_ipHeaderChecksum hcopy)]

/-- **When the length sent is the length of the packet built**: after every call, in any order, but an
echo behind a message of 228 bytes or more. There the program hands `transport_send` the echo and
what was left behind it. -/
theorem ipPktLen_exact_iff {build : Build} {ip₀ ip : IpMem} {calls : List IpCall}
    (h : IpRun build ip₀ calls ip) (hstart : ip₀.ipPktLen = 0) (c : IpCall) :
    (LengthExact (c.run build ip) ↔ c.Fresh build calls) ∧
      ∀ m : Machine σ, c.Clear build →
        (stagedPayload (stageIpPacket { m with ip := c.run build ip }) = c.packet build ip ↔
          c.Fresh build calls) := by
  have hhigh := h.ipPktLen hstart
  have hstaged : ∀ (m : Machine σ) ip', stagedPayload (stageIpPacket { m with ip := ip' }) =
      (slice ip'.ipPacketBuf 0 ip'.ipPktLen).toList := fun _ _ => rfl
  cases c with
  | icmpBuildEcho cfg =>
      have hfresh : ip.ipPktLen / 256 = 0 ↔ (IpCall.icmpBuildEcho cfg).Fresh build calls := by
        rw [IpCall.Fresh, hhigh]
        omega
      refine ⟨(icmpBuildEcho_exact_iff cfg ip).trans hfresh, fun m _ => ?_⟩
      have hpkt := slice_icmpBuildEcho cfg ip
      rw [hstaged, IpCall.run, IpCall.packet, ← hfresh, ← hpkt]
      constructor
      · intro heq
        have hlen := congrArg List.length heq
        rw [Vector.length_toList, Vector.length_toList, ipPktLen_icmpBuildEcho] at hlen
        omega
      · intro hzero
        rw [ipPktLen_icmpBuildEcho, hzero]
  | udpTunnelBuild text len cfg =>
      refine ⟨iff_of_true (udpTunnelBuild_exact build text len cfg ip) trivial,
        fun m hclear => iff_of_true ?_ trivial⟩
      rw [hstaged, IpCall.run, IpCall.packet, ipPktLen_udpTunnelBuild]
      exact (slice_udpTunnelBuild build hclear cfg ip).1

/-- A message of 228 bytes from program start, and then an echo. -/
theorem ipPktLen_exact_iff_message :
    ¬ LengthExact ((IpCall.icmpBuildEcho .start).run defaultBuild
      ((IpCall.udpTunnelBuild (.elsewhere (zero 228)) 228 .start).run defaultBuild .start)) := by
  have hstart : IpRun defaultBuild .start [] .start := .start
  have h := ipPktLen_exact_iff (σ := Unit)
    (hstart.call (.udpTunnelBuild (.elsewhere (zero 228)) 228 .start))
    (rfl : IpMem.start.ipPktLen = 0) (.icmpBuildEcho .start)
  rw [h.1]
  exact Nat.lt_irrefl 228

/-- After that echo 284 bytes are sent, of which 28 were built. -/
theorem icmpBuildEcho_stale :
    let sent := udpTunnelBuild defaultBuild (.elsewhere (zero 228)) 228 .start .start
    (icmpBuildEcho .start sent).ipPktLen = 284 ∧
      ¬ LengthExact (icmpBuildEcho .start sent) := by
  have hlen : (udpTunnelBuild defaultBuild (.elsewhere (zero 228)) 228 .start .start).ipPktLen =
      256 := ipPktLen_udpTunnelBuild ..
  refine ⟨?_, ?_⟩
  · rw [ipPktLen_icmpBuildEcho, hlen]
  · rw [icmpBuildEcho_exact_iff, hlen]
    decide

end C64WireGuard
