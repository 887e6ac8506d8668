import C64WireGuard.Lib.Alu
import C64WireGuard.TunnelPackets

/-!
# `ip_checksum` on its cells

The routine adds the low-address byte of each word to the low half of its sum, so the sum is that of
the byte-swapped words, and stores the halves in the order that swaps it back. A carry comes in by
`inc`, and the loop has an exit for an `inc` that wraps both halves; a partial sum with a carry is
below $FFFF, so that exit is never taken (`cksumLoop_spec`).
-/

namespace C64WireGuard

open Bytes Alu InternetChecksum

/-! ## The routine -/

/-- `@loop` over memory from `zp_ptr1` on, with the index in `y` and the sum in `ip_cksum_result` and
`zp_tmp2`; `none` when it is not done in time. -/
def cksumLoop (mem : Nat → UInt8) (zpPtr1 : Nat) (zpTmp1 : UInt8) :
    Nat → UInt8 → Cell16 → Option Cell16
  | 0, _, _ => none
  | fuel + 1, y, sum =>
    if y = zpTmp1 then some sum
    else
      let low := adc sum.lo (mem ((zpPtr1 + y.toNat) % 65536)) false
      let high := adc sum.hi (mem ((zpPtr1 + (y + 1).toNat) % 65536)) low.2
      let y := y + 1 + 1
      if high.2 then
        let low := low.1 + 1
        if low ≠ 0 then cksumLoop mem zpPtr1 zpTmp1 fuel y ⟨low, high.1⟩
        else
          let high := high.1 + 1
          -- the fall into `@fold` that the source says never happens
          if high ≠ 0 then cksumLoop mem zpPtr1 zpTmp1 fuel y ⟨low, high⟩ else some ⟨low, high⟩
      else cksumLoop mem zpPtr1 zpTmp1 fuel y ⟨low.1, high.1⟩

/-- `ip_checksum` of `zp_tmp1` bytes, with what it leaves in `ip_cksum_result`. -/
def ipChecksumCells (mem : Nat → UInt8) (zpPtr1 : Nat) (zpTmp1 : UInt8) (fuel : Nat) :
    Option (Bytes 2) :=
  (cksumLoop mem zpPtr1 zpTmp1 fuel 0 ⟨0, 0⟩).map fun sum => #v[sum.lo ^^^ 0xff, sum.hi ^^^ 0xff]

/-- The bytes from offset `i` of the buffer on. -/
def cksumBytes (mem : Nat → UInt8) (zpPtr1 i n : Nat) : List UInt8 :=
  (List.range n).map fun j => mem ((zpPtr1 + (i + j)) % 65536)

theorem cksumBytes_word (mem : Nat → UInt8) (zpPtr1 i n : Nat) :
    cksumBytes mem zpPtr1 i (n + 2) =
      mem ((zpPtr1 + i) % 65536) :: mem ((zpPtr1 + (i + 1)) % 65536) ::
        cksumBytes mem zpPtr1 (i + 2) n := by
  simp only [cksumBytes, List.range_succ_eq_map, List.map_cons, List.map_map, Nat.add_zero]
  refine congrArg _ (congrArg _ (List.map_congr_left fun j _ => ?_))
  simp only [Function.comp_apply, Nat.succ_eq_add_one]
  congr 2
  omega

/-! ## The sum -/

/-- One pass adds one word with the carry brought back in, and goes on. -/
theorem cksumLoop_word {mem : Nat → UInt8} {zpPtr1 : Nat} {zpTmp1 y : UInt8} {fuel : Nat}
    {sum : Cell16} (hy : y ≠ zpTmp1) {a b : UInt8} (ha : mem ((zpPtr1 + y.toNat) % 65536) = a)
    (hb : mem ((zpPtr1 + (y + 1).toNat) % 65536) = b) :
    ∃ next : Cell16, next.toNat = onesAdd sum.toNat (a.toNat + 256 * b.toNat) ∧
      cksumLoop mem zpPtr1 zpTmp1 (fuel + 1) y sum =
        cksumLoop mem zpPtr1 zpTmp1 fuel (y + 1 + 1) next := by
  have hlow := adc_spec sum.lo a false
  have hhigh := adc_spec sum.hi b (adc sum.lo a false).2
  have hlt := sum.toNat_lt
  have hsum : sum.toNat = sum.lo.toNat + 256 * sum.hi.toNat := rfl
  have hword : a.toNat + 256 * b.toNat < 65536 := by
    have := a.toNat_lt
    have := b.toNat_lt
    omega
  rw [cksumLoop, if_neg hy, ha, hb, onesAdd]
  dsimp only
  simp only [Bool.toNat_false] at hlow hhigh
  generalize adc sum.lo a false = low at hlow hhigh ⊢
  generalize adc sum.hi b low.2 = high at hhigh ⊢
  have hlowlt := low.1.toNat_lt
  have hhighlt := high.1.toNat_lt
  cases hc : high.2 with
  | false =>
    rw [hc, Bool.toNat_false] at hhigh
    refine ⟨⟨low.1, high.1⟩, ?_, rfl⟩
    rw [if_pos (by omega), Cell16.toNat]
    dsimp only
    omega
  | true =>
    rw [hc, Bool.toNat_true] at hhigh
    -- a sum with a carry is at most $FFFE
    have hbound : low.1.toNat + 256 * high.1.toNat < 65535 := by omega
    rw [if_neg (by omega), if_pos rfl]
    by_cases hwrap : low.1 + 1 = 0
    · have hfull := (byte_succ_eq_zero_iff low.1).mp hwrap
      have hne : ¬ high.1.toNat = 255 := by omega
      have hgo : high.1 + 1 ≠ 0 := mt (byte_succ_eq_zero_iff high.1).mp hne
      refine ⟨⟨low.1 + 1, high.1 + 1⟩, ?_, ?_⟩
      · simp only [Cell16.toNat, hwrap, UInt8.toNat_add, UInt8.reduceToNat]
        omega
      · simp only [if_neg (not_not.mpr hwrap), if_pos hgo]
    · have hne := mt (byte_succ_eq_zero_iff low.1).mpr hwrap
      refine ⟨⟨low.1 + 1, high.1⟩, ?_, ?_⟩
      · simp only [Cell16.toNat, UInt8.toNat_add, UInt8.reduceToNat]
        omega
      · simp only [if_pos (show low.1 + 1 ≠ 0 from hwrap)]

/-- **The loop ends at an even count**, with the sum of the words from `y` on added. -/
theorem cksumLoop_spec (mem : Nat → UInt8) (zpPtr1 : Nat) {zpTmp1 y : UInt8} {n : Nat}
    (sum : Cell16) (h : y.toNat + 2 * n = zpTmp1.toNat) :
    ∃ last : Cell16, cksumLoop mem zpPtr1 zpTmp1 (n + 1) y sum = some last ∧
      last.toNat = (wordsLe (cksumBytes mem zpPtr1 y.toNat (2 * n))).foldl onesAdd sum.toNat := by
  induction n generalizing y sum with
  | zero =>
    have hy : y = zpTmp1 := UInt8.toNat_inj.mp h
    exact ⟨sum, by rw [cksumLoop, if_pos hy], rfl⟩
  | succ n ih =>
    have hlt := zpTmp1.toNat_lt
    have hy : y ≠ zpTmp1 := fun heq => by
      rw [heq] at h
      omega
    have hy₁ : (y + 1).toNat = y.toNat + 1 := by
      simp only [UInt8.toNat_add, UInt8.reduceToNat]
      omega
    have hy₂ : (y + 1 + 1).toNat = y.toNat + 2 := by
      rw [UInt8.toNat_add, hy₁]
      simp only [UInt8.reduceToNat]
      omega
    obtain ⟨next, hnext, hgo⟩ : ∃ next : Cell16, next.toNat = onesAdd sum.toNat _ ∧
        cksumLoop mem zpPtr1 zpTmp1 (n + 1 + 1) y sum =
          cksumLoop mem zpPtr1 zpTmp1 (n + 1) (y + 1 + 1) next := cksumLoop_word hy rfl rfl
    obtain ⟨last, hrun, hlast⟩ := ih next (y := y + 1 + 1) (by omega)
    refine ⟨last, hgo.trans hrun, ?_⟩
    rw [hlast, hnext, hy₂, show 2 * (n + 1) = 2 * n + 2 by omega, cksumBytes_word, wordsLe,
      List.foldl_cons, hy₁]

/-- The routine is `ipChecksum` of the buffer's bytes. -/
theorem ipChecksumCells_eq (mem : Nat → UInt8) (zpPtr1 : Nat) {zpTmp1 : UInt8}
    (heven : zpTmp1.toNat % 2 = 0) :
    ipChecksumCells mem zpPtr1 zpTmp1 (zpTmp1.toNat / 2 + 1) =
      some (ipChecksum (cksumBytes mem zpPtr1 0 zpTmp1.toNat)) := by
  have hlen : (cksumBytes mem zpPtr1 0 zpTmp1.toNat).length = zpTmp1.toNat := by simp [cksumBytes]
  have hcount : (0 : UInt8).toNat + 2 * (zpTmp1.toNat / 2) = zpTmp1.toNat := by
    rw [UInt8.toNat_zero]
    omega
  obtain ⟨last, hrun, hlast⟩ := cksumLoop_spec mem zpPtr1 ⟨0, 0⟩ hcount
  rw [show 2 * (zpTmp1.toNat / 2) = zpTmp1.toNat by omega, UInt8.toNat_zero] at hlast
  have heven' : (cksumBytes mem zpPtr1 0 zpTmp1.toNat).length % 2 = 0 := by rw [hlen, heven]
  have hloop := ipChecksumLoop_eq heven' (show 0 < 65536 by decide)
  have hcells : last = Cell16.ofNat (ipChecksumLoop (cksumBytes mem zpPtr1 0 zpTmp1.toNat) 0) := by
    rw [← Cell16.toNat_inj, Cell16.toNat_ofNat, hloop, ← Nat.mod_eq_of_lt last.toNat_lt]
    exact congrArg (· % 65536) hlast
  rw [ipChecksumCells, hrun, Option.map_some, ipChecksum, hcells]
  rfl

/-- The checksum in network order is the complement of the sum of the words in network order. -/
theorem be_ipChecksum {bs : List UInt8} (heven : bs.length % 2 = 0) :
    be (ipChecksum bs) = 65535 - onesSum (wordsBe bs) := by
  have hspec := ipChecksum_spec heven
  have hlt := (foldl_onesAdd (wordsLe_lt bs) (show 0 < 65536 by decide)).1
  have hbytes : be (ipChecksum bs) =
      256 * (byte (ipChecksum bs) 0).toNat + (byte (ipChecksum bs) 1).toNat := by
    rw [be, toList_two]
    simp [beNat, leNat]
    omega
  have h₀ := (byte (ipChecksum bs) 0).toNat_lt
  have h₁ := (byte (ipChecksum bs) 1).toNat_lt
  change onesSum (wordsLe bs) < 65536 at hlt
  rw [hbytes, onesSum_wordsBe]
  omega

/-! ## Packets that verify -/

/-- The ICMP message of an echo request verifies. -/
theorem verifies_icmpEcho (seq : Bytes 2) :
    Verifies (icmpEcho (ipChecksum (icmpEcho (zero 2) seq)) seq) := by
  have hsplit : ∀ cksum, icmpEcho cksum seq =
      [8, 0] ++ byte cksum 0 :: byte cksum 1 :: (wgIcmpId.toList ++ seq.toList) := by
    intro cksum
    rw [icmpEcho, toList_two cksum]
    simp
  have heven : (icmpEcho (zero 2) seq).length % 2 = 0 := by simp [icmpEcho]
  have hspec := ipChecksum_spec heven
  rw [hsplit (zero 2), byte_zero, byte_zero] at hspec
  rw [hsplit]
  refine verifies_complement (by simp) ?_
  rw [hsplit (zero 2), byte_zero, byte_zero]
  exact hspec

/-- The header and the message of the packet `icmp_build_echo` builds. -/
theorem icmpBuildEcho_parts (cfg : CfgMem) (ip : IpMem) :
    (slice (icmpBuildEcho cfg ip).ipPacketBuf 0 20).toList =
        headerBytes (ofBe 2 28) ipProtoIcmp (headerChecksum (ofBe 2 28) ipProtoIcmp cfg) cfg ∧
      (slice (icmpBuildEcho cfg ip).ipPacketBuf 20 8).toList =
        icmpEcho (ipChecksum (icmpEcho (zero 2) ip.pingSeq)) ip.pingSeq := by
  have hwhole := slice_icmpBuildEcho cfg ip
  rw [toList_slice_add (m := 20) (k := 8) _ (by decide), echoPacket, ipDatagram] at hwhole
  refine List.append_inj hwhole ?_
  rw [length_headerBytes]
  simp

/-- The header of the packet `udp_tunnel_build` builds. -/
theorem udpTunnelBuild_header (build : Build) (text : TextPtr) (len : Nat) (cfg : CfgMem)
    (ip : IpMem) :
    ∃ totalLen, (slice (udpTunnelBuild build text len cfg ip).ipPacketBuf 0 20).toList =
      headerBytes totalLen ipProtoUdp (headerChecksum totalLen ipProtoUdp cfg) cfg := by
  refine ⟨ofBe 2 ((textLen build len + ipUdpHdrLen) % 65536), ?_⟩
  have hcopy : slice (text.copy (textLen build len) (messageStage build (textLen build len) cfg ip))
      0 20 = slice (ipHeader (ofBe 2 ((textLen build len + ipUdpHdrLen) % 65536)) ipProtoUdp cfg
        ip.ipPacketBuf) 0 20 := by
    rw [TextPtr.slice_copy, messageStage]
    simp only [slice_copyIn_disjoint, Nat.zero_add, Nat.reduceLeDiff, or_true]
  rw [udpTunnelBuild_eq]
  exact slice_ipHeaderChecksum hcopy

/-- **RFC 1071.** On every buffer and every even count `ip_checksum` ends, with the complement of the
one's complement sum of the words; so the headers of both builders and the echo message sum, their
checksums included, to all ones. -/
theorem ipChecksumCells_rfc :
    (∀ (mem : Nat → UInt8) (zpPtr1 : Nat) (zpTmp1 : UInt8), zpTmp1.toNat % 2 = 0 →
      ∃ fuel cksum, ipChecksumCells mem zpPtr1 zpTmp1 fuel = some cksum ∧
        be cksum = 0xffff - onesSum (wordsBe (cksumBytes mem zpPtr1 0 zpTmp1.toNat))) ∧
    (∀ (cfg : CfgMem) (ip : IpMem),
      onesSum (wordsBe (slice (icmpBuildEcho cfg ip).ipPacketBuf 0 20).toList) = 0xffff ∧
      onesSum (wordsBe (slice (icmpBuildEcho cfg ip).ipPacketBuf 20 8).toList) = 0xffff) ∧
    ∀ (build : Build) (text : TextPtr) (len : Nat) (cfg : CfgMem) (ip : IpMem),
      onesSum (wordsBe (slice (udpTunnelBuild build text len cfg ip).ipPacketBuf 0 20).toList) =
        0xffff := by
  refine ⟨fun mem zpPtr1 zpTmp1 heven => ?_, fun cfg ip => ?_, fun build text len cfg ip => ?_⟩
  · refine ⟨_, _, ipChecksumCells_eq mem zpPtr1 heven, be_ipChecksum ?_⟩
    rw [cksumBytes, List.length_map, List.length_range, heven]
  · obtain ⟨hheader, hmessage⟩ := icmpBuildEcho_parts cfg ip
    rw [hheader, hmessage]
    exact ⟨verifies_headerBytes _ _ _, verifies_icmpEcho _⟩
  · obtain ⟨totalLen, hheader⟩ := udpTunnelBuild_header build text len cfg ip
    rw [hheader]
    exact verifies_headerBytes _ _ _

/-- The example of RFC 1071, eight bytes at $0340. -/
theorem ipChecksumCells_rfc_example :
    let mem := fun i => [0x00, 0x01, 0xf2, 0x03, 0xf4, 0xf5, 0xf6, 0xf7].getD (i - 0x0340) 0
    ∃ fuel cksum, ipChecksumCells mem 0x0340 8 fuel = some cksum ∧ be cksum = 0x220d := by
  intro mem
  obtain ⟨fuel, cksum, hrun, hval⟩ := ipChecksumCells_rfc.1 mem 0x0340 8 (by decide)
  exact ⟨fuel, cksum, hrun, hval.trans (by decide)⟩

end C64WireGuard
