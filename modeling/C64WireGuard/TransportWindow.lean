import Mathlib.Data.Nat.Bitwise
import C64WireGuard.Transport

/-!
# The replay window of `transport_decrypt`

`rw_bitmap` and `rw_counter_max` are a ring of 2048 flags and its top. `window` reads them as a
`ReplayWindow.State`, and `transportDecrypt_spec` says that `transport_decrypt` is a replay window
under the policy `c64Policy`: it answers for counters of the top's own block of 65536 only, and it
wipes the whole ring when it moves up by 256 or more.
-/

namespace C64WireGuard

open Bytes ReplayWindow

/-! ## Counters -/

/-- A 64-bit counter splits into two index bytes and its block of 65536. -/
theorem le_counter (c : Bytes 8) :
    le c = (byte c 0).toNat + 256 * (byte c 1).toNat + 65536 * le (slice c 2 6) := by
  rw [le_eq_add c (m := 2) (k := 6) rfl, le_slice_two]
  norm_num

theorem le_div_block (c : Bytes 8) : le c / 65536 = le (slice c 2 6) := by
  have h₀ := (byte c 0).toNat_lt
  have h₁ := (byte c 1).toNat_lt
  rw [le_counter]
  omega

theorem slice_block_eq_iff (a b : Bytes 8) :
    slice a 2 6 = slice b 2 6 ↔ le a / 65536 = le b / 65536 := by
  rw [le_div_block, le_div_block, le_inj]

theorem slice_last (c : Bytes 8) : le (slice c 7 1) = (byte c 7).toNat := by
  rw [le_one]
  simp

/-- The top byte decides whether a counter is below 2^60. -/
theorem top_byte_lt_iff (c : Bytes 8) : ¬ rejectCounterB7 ≤ byte c 7 ↔ le c < 2 ^ 60 := by
  have hlt := le_lt (slice c 0 7)
  rw [le_eq_add c (m := 7) (k := 1) rfl, slice_last, rejectCounterB7, UInt8.le_iff_toNat_le]
  simp only [UInt8.reduceToNat]
  omega

/-! ## Flags -/

/-- The flag at a ring position. -/
def bitAt (bitmap : Bytes 256) (p : Nat) : Bool := (byte bitmap (p / 8)).toNat.testBit (p % 8)

/-- The cells as a window. -/
def window (t : TpMem) : State where
  top := le t.rwCounterMax
  seen := bitAt t.rwBitmap

theorem toNat_and_seven (b : UInt8) : (b &&& 0x07).toNat = b.toNat % 8 := by
  rw [UInt8.toNat_and]
  exact Nat.and_two_pow_sub_one_eq_mod b.toNat 3

theorem toNat_index_byte (lo hi : UInt8) :
    (((hi &&& 0x07) <<< 5) ||| (lo >>> 3)).toNat = 32 * (hi.toNat % 8) + lo.toNat / 8 := by
  have hlo := lo.toNat_lt
  have hshl : ((hi &&& 0x07) <<< 5).toNat = (hi.toNat % 8) <<< 5 := by
    rw [UInt8.toNat_shiftLeft, toNat_and_seven]
    simp only [UInt8.reduceToNat, Nat.reduceMod, Nat.shiftLeft_eq, Nat.reducePow]
    omega
  have hshr : (lo >>> 3).toNat = lo.toNat / 8 := by
    rw [UInt8.toNat_shiftRight]
    simp only [UInt8.reduceToNat, Nat.shiftRight_eq_div_pow, Nat.reduceMod, Nat.reducePow]
  rw [UInt8.toNat_or, hshl, hshr, ← Nat.shiftLeft_add_eq_or_of_lt (by omega), Nat.shiftLeft_eq]
  omega

theorem rwByteOffset_eq (c : Bytes 8) : rwByteOffset c = le c % 2048 / 8 := by
  have h₀ := (byte c 0).toNat_lt
  rw [rwByteOffset, toNat_index_byte, le_counter]
  omega

theorem rwBitIndex_eq (c : Bytes 8) : rwBitIndex c = le c % 2048 % 8 := by
  rw [rwBitIndex, toNat_and_seven, le_counter]
  omega

theorem toNat_rwBitMask {i : Nat} (hi : i < 8) : (byte rwBitMask i).toNat = 2 ^ i := by
  interval_cases i <;> decide

theorem and_mask_eq_zero_iff (b mask : UInt8) {i : Nat} (hm : mask.toNat = 2 ^ i) :
    (b &&& mask == 0) = !b.toNat.testBit i := by
  have hand : (b &&& mask).toNat = (b.toNat.testBit i).toNat * 2 ^ i := by
    rw [UInt8.toNat_and, hm, Nat.and_two_pow]
  rw [Bool.eq_iff_iff, beq_iff_eq, ← UInt8.toNat_inj, hand]
  cases b.toNat.testBit i <;> simp

/-- `@check_bitmap` reads the counter's flag. -/
theorem checkBitmap_eq (t : TpMem) :
    checkBitmap t = !bitAt t.rwBitmap (le t.tpRecvCounterTmp % 2048) := by
  rw [checkBitmap, and_mask_eq_zero_iff _ _ (toNat_rwBitMask (i := rwBitIndex t.tpRecvCounterTmp)
    (by rw [rwBitIndex_eq]; omega)), rwByteOffset_eq, rwBitIndex_eq, bitAt]

theorem bitAt_of_ge (bitmap : Bytes 256) {p : Nat} (hp : 2048 ≤ p) : bitAt bitmap p = false := by
  rw [bitAt, byte_of_ge _ (by omega)]
  simp

theorem bitAt_zero (p : Nat) : bitAt (zero 256) p = false := by
  simp [bitAt]

/-- Setting one flag. -/
theorem bitAt_put_or (bitmap : Bytes 256) (mask : UInt8) {q : Nat} (hq : q < 2048)
    (hm : mask.toNat = 2 ^ (q % 8)) (p : Nat) :
    bitAt (put bitmap (q / 8) (byte bitmap (q / 8) ||| mask)) p = (p == q || bitAt bitmap p) := by
  by_cases hp : p / 8 = q / 8
  · have hlt : q / 8 < 256 := by omega
    rw [bitAt, byte_put, if_pos ⟨hp, by omega⟩, UInt8.toNat_or, hm, Nat.testBit_or,
      Nat.testBit_two_pow, bitAt, hp, Bool.or_comm]
    congr 1
    rw [Bool.eq_iff_iff, beq_iff_eq, decide_eq_true_eq]
    omega
  · have hne : (p == q) = false := by
      rw [beq_eq_false_iff_ne]
      omega
    rw [bitAt, byte_put, if_neg (fun h => hp h.1), hne, Bool.false_or, bitAt]

/-- Clearing one flag. -/
theorem bitAt_put_and (bitmap : Bytes 256) (mask : UInt8) {q : Nat} (hq : q < 2048)
    (hm : mask.toNat = 2 ^ (q % 8)) (p : Nat) :
    bitAt (put bitmap (q / 8) ((mask ^^^ 0xff) &&& byte bitmap (q / 8))) p =
      (bitAt bitmap p && !(p == q)) := by
  by_cases hp : p / 8 = q / 8
  · have hlt : q / 8 < 256 := by omega
    have hff : (0xff : UInt8).toNat = 2 ^ 8 - 1 := rfl
    have h8 : p % 8 < 8 := Nat.mod_lt _ (by omega)
    rw [bitAt, byte_put, if_pos ⟨hp, by omega⟩, UInt8.toNat_and, UInt8.toNat_xor, hm, hff,
      Nat.testBit_and, Nat.testBit_xor, Nat.testBit_two_pow, Nat.testBit_two_pow_sub_one, bitAt, hp,
      Bool.and_comm, decide_eq_true h8, Bool.xor_true]
    congr 2
    rw [Bool.eq_iff_iff, beq_iff_eq, decide_eq_true_eq]
    omega
  · have hne : (p == q) = false := by
      rw [beq_eq_false_iff_ne]
      omega
    rw [bitAt, byte_put, if_neg (fun h => hp h.1), hne, Bool.not_false, Bool.and_true, bitAt]

/-! ## Clearing a run of flags -/

/-- How far position `p` lies after position `q`, going up around the ring. -/
def ringDist (q p : Nat) : Nat := (p + 2048 - q) % 2048

/-- `@clear_loop` clears the `x` positions from its start on, around the end of the ring. -/
theorem bitAt_clearLoop (x : Nat) (mask y : UInt8) (bitmap : Bytes 256) {i p : Nat} (hi : i < 8)
    (hm : mask.toNat = 2 ^ i) (hp : p < 2048) :
    bitAt (clearLoop x mask y bitmap) p =
      (bitAt bitmap p && !decide (ringDist (8 * y.toNat + i) p < x)) := by
  induction x generalizing mask y bitmap i with
  | zero => simp [clearLoop]
  | succ x ih =>
      have hy := y.toNat_lt
      obtain ⟨q, hq⟩ : ∃ q, 8 * y.toNat + i = q := ⟨_, rfl⟩
      have hdiv : y.toNat = q / 8 := by omega
      have hmod : i = q % 8 := by omega
      have hclear := bitAt_put_and bitmap mask (q := q) (by omega) (by rw [hm, hmod]) p
      rw [← hdiv] at hclear
      -- the mask falls off the byte exactly when the position steps into the next one
      have hstep : ∀ q', q' = (q + 1) % 2048 →
          ((bitAt bitmap p && !(p == q)) && !decide (ringDist q' p < x)) =
            (bitAt bitmap p && !decide (ringDist q p < x + 1)) := by
        rintro q' rfl
        rw [Bool.and_assoc]
        congr 1
        rw [← Bool.not_or]
        congr 1
        rw [Bool.eq_iff_iff, Bool.or_eq_true, beq_iff_eq, decide_eq_true_eq, decide_eq_true_eq,
          ringDist, ringDist]
        omega
      have hshl : (mask <<< 1).toNat = 2 ^ (i + 1) % 256 := by
        rw [UInt8.toNat_shiftLeft, hm]
        simp only [UInt8.reduceToNat, Nat.reduceMod, Nat.shiftLeft_eq, pow_succ, Nat.pow_zero]
        norm_num
      simp only [clearLoop]
      by_cases h7 : i = 7
      · subst h7
        have hz : mask <<< 1 = 0 := UInt8.toNat_inj.mp (by rw [hshl]; rfl)
        have hsucc : (y + 1).toNat = (y.toNat + 1) % 256 := by
          rw [UInt8.toNat_add]
          rfl
        rw [if_pos hz, ih 1 (y + 1) _ (i := 0) (by omega) rfl, hclear, hq]
        exact hstep _ (by rw [hsucc]; omega)
      · have hpow : 2 ^ (i + 1) % 256 = 2 ^ (i + 1) := by
          have hlt : i < 7 := by omega
          interval_cases i <;> rfl
        have hnz : ¬ mask <<< 1 = 0 := by
          intro hz
          have := congrArg UInt8.toNat hz
          rw [hshl, hpow] at this
          exact absurd this (by simp)
        rw [if_neg hnz, ih (mask <<< 1) y _ (i := i + 1) (by omega) (by rw [hshl, hpow]), hclear, hq]
        exact hstep _ (by omega)

/-- The start of the clear is the position just above the old top. -/
theorem bitAt_clearShifted (t : TpMem) {p : Nat} (hp : p < 2048) (hx : t.rwShiftLo ≠ 0) :
    bitAt (clearShifted t) p =
      (bitAt t.rwBitmap p &&
        !decide (ringDist ((le t.rwCounterMax + 1) % 2048) p < t.rwShiftLo.toNat)) := by
  have h₀ := (byte t.rwCounterMax 0).toNat_lt
  have h₁ := (byte t.rwCounterMax 1).toNat_lt
  rw [clearShifted]
  simp only [if_neg hx]
  generalize hlo : byte t.rwCounterMax 0 + 1 = lo
  generalize hhi : byte t.rwCounterMax 1 + (if lo = 0 then 1 else 0) = hi
  have hlolt := lo.toNat_lt
  have hlo' : lo.toNat = ((byte t.rwCounterMax 0).toNat + 1) % 256 := by
    rw [← hlo, UInt8.toNat_add]
    rfl
  have hhi' : hi.toNat =
      ((byte t.rwCounterMax 1).toNat + ((byte t.rwCounterMax 0).toNat + 1) / 256) % 256 := by
    rw [← hhi, UInt8.toNat_add]
    by_cases hz : lo = 0
    · have : lo.toNat = 0 := by rw [hz]; rfl
      rw [if_pos hz]
      simp only [UInt8.reduceToNat]
      omega
    · have : lo.toNat ≠ 0 := fun h => hz (UInt8.toNat_inj.mp h)
      rw [if_neg hz]
      simp only [UInt8.reduceToNat]
      omega
  have hshl : ((hi &&& 0x07) <<< 5) = hi <<< 5 := by
    apply UInt8.toNat_inj.mp
    rw [UInt8.toNat_shiftLeft, UInt8.toNat_shiftLeft, toNat_and_seven]
    simp only [UInt8.reduceToNat, Nat.reduceMod, Nat.shiftLeft_eq, Nat.reducePow]
    omega
  have hy : (lo >>> 3 ||| hi <<< 5).toNat = 32 * (hi.toNat % 8) + lo.toNat / 8 := by
    rw [← hshl, UInt8.or_comm, toNat_index_byte]
  have hi8 : (lo &&& 0x07).toNat < 8 := by
    rw [toNat_and_seven]
    omega
  have hstart : 8 * (32 * (hi.toNat % 8) + lo.toNat / 8) + lo.toNat % 8 =
      (le t.rwCounterMax + 1) % 2048 := by
    rw [le_counter]
    omega
  rw [bitAt_clearLoop _ _ _ _ hi8 (toNat_rwBitMask hi8) hp, hy, toNat_and_seven, hstart]

/-! ## The policy -/

/-- The window `transport_decrypt` keeps. -/
def c64Policy : Policy where
  size := 2048
  reach := fun top c => decide (c ≤ top) && top / 65536 == c / 65536 && decide (top - c < 2048)
  cleared := fun top c p =>
    !(top / 65536 == c / 65536) || decide (256 ≤ c - top) ||
      decide (ringDist ((top + 1) % 2048) p < c - top)

theorem reach_iff (top c : Nat) :
    c64Policy.reach top c = true ↔ c ≤ top ∧ top / 65536 = c / 65536 ∧ top - c < 2048 := by
  simp [c64Policy, and_assoc]

theorem cleared_iff (top c p : Nat) :
    c64Policy.cleared top c p = true ↔ top / 65536 ≠ c / 65536 ∨ 256 ≤ c - top ∨
      ringDist ((top + 1) % 2048) p < c - top := by
  simp [c64Policy, or_assoc]

/-- A counter at or below the top is admitted when it is within reach and its flag is clear. -/
theorem admits_of_le {s : State} {c : Nat} (h : c ≤ s.top) :
    admits c64Policy s c = (c64Policy.reach s.top c && !s.seen (c % 2048)) := by
  rw [admits, decide_eq_false (by omega), Bool.false_or]
  rfl

theorem c64Policy_shrinking : c64Policy.Shrinking := by
  intro top c k hlt hle hreach
  rw [reach_iff] at hreach ⊢
  omega

theorem c64Policy_exposing : c64Policy.Exposing where
  injective := by
    intro top k k' hk hk' hmod
    rw [reach_iff] at hk hk'
    change k % 2048 = k' % 2048 at hmod
    omega
  top_mem := by
    intro top
    rw [reach_iff]
    omega
  wipes := by
    intro top c k hlt hkc hreach
    rw [reach_iff] at hreach
    rw [cleared_iff, ringDist]
    change _ ∨ _ ∨ (k % 2048 + 2048 - (top + 1) % 2048) % 2048 < c - top
    omega
  le_top := by
    intro top k hreach
    exact ((reach_iff top k).mp hreach).1

/-! ## The check and the update -/

/-- The 16-bit difference is the distance, for counters of one block. -/
theorem sub16_counter (a b : Bytes 8) (hle : le b ≤ le a) (hblock : le a / 65536 = le b / 65536) :
    (sub16 (byte a 0) (byte a 1) (byte b 0) (byte b 1)).1.toNat +
      256 * (sub16 (byte a 0) (byte a 1) (byte b 0) (byte b 1)).2.toNat = le a - le b := by
  have ha₀ := (byte a 0).toNat_lt
  have ha₁ := (byte a 1).toNat_lt
  have hb₀ := (byte b 0).toNat_lt
  have hb₁ := (byte b 1).toNat_lt
  have ha := le_counter a
  have hb := le_counter b
  rw [le_div_block, le_div_block] at hblock
  rw [sub16_spec]
  omega

/-- The replay check is the window's, and touches only its own scratch. -/
theorem replayCheck_spec (t : TpMem) :
    (replayCheck t).2 = admits c64Policy (window t) (le t.tpRecvCounterTmp) ∧
      ∃ lo hi, (replayCheck t).1 =
        { t with
          rwNewCounter := if le t.rwCounterMax < le t.tpRecvCounterTmp then 1 else 0
          rwShiftLo := lo
          rwShiftHi := hi } := by
  have hcmp := cmp_spec t.tpRecvCounterTmp t.rwCounterMax
  have hcheck : ∀ lo hi,
      checkBitmap { t with rwNewCounter := 0, rwShiftLo := lo, rwShiftHi := hi } =
        !bitAt t.rwBitmap (le t.tpRecvCounterTmp % 2048) := by
    intro lo hi
    exact checkBitmap_eq { t with rwNewCounter := 0, rwShiftLo := lo, rwShiftHi := hi }
  rcases Nat.lt_trichotomy (le t.tpRecvCounterTmp) (le t.rwCounterMax) with hlt | heq | hgt
  · rw [Nat.compare_eq_lt.mpr hlt] at hcmp
    have hnot : ¬ le t.rwCounterMax < le t.tpRecvCounterTmp := by omega
    simp only [replayCheck, hcmp, if_neg hnot]
    generalize hd : sub16 (byte t.rwCounterMax 0) (byte t.rwCounterMax 1)
      (byte t.tpRecvCounterTmp 0) (byte t.tpRecvCounterTmp 1) = d
    by_cases hblock : slice t.rwCounterMax 2 6 = slice t.tpRecvCounterTmp 2 6
    · rw [if_neg (not_not.mpr hblock)]
      rw [slice_block_eq_iff] at hblock
      have hdist := sub16_counter t.rwCounterMax t.tpRecvCounterTmp hlt.le hblock
      rw [hd] at hdist
      have hd₁ := d.1.toNat_lt
      by_cases h8 : 8 ≤ d.2
      · rw [if_pos h8]
        rw [UInt8.le_iff_toNat_le] at h8
        simp only [UInt8.reduceToNat] at h8
        refine ⟨?_, d.1, d.2, rfl⟩
        have hreach : c64Policy.reach (le t.rwCounterMax) (le t.tpRecvCounterTmp) ≠ true := by
          rw [Ne, reach_iff]
          omega
        rw [admits_of_le hlt.le, window, Bool.eq_false_iff.mpr hreach, Bool.false_and]
      · rw [if_neg h8]
        rw [UInt8.le_iff_toNat_le] at h8
        simp only [UInt8.reduceToNat] at h8
        refine ⟨?_, d.1, d.2, rfl⟩
        have hreach : c64Policy.reach (le t.rwCounterMax) (le t.tpRecvCounterTmp) = true := by
          rw [reach_iff]
          omega
        rw [hcheck, admits_of_le hlt.le, window, hreach, Bool.true_and]
    · rw [if_pos hblock]
      rw [slice_block_eq_iff] at hblock
      refine ⟨?_, d.1, d.2, rfl⟩
      have hreach : c64Policy.reach (le t.rwCounterMax) (le t.tpRecvCounterTmp) ≠ true := by
        rw [Ne, reach_iff]
        omega
      rw [admits_of_le hlt.le, window, Bool.eq_false_iff.mpr hreach, Bool.false_and]
  · rw [Nat.compare_eq_eq.mpr heq] at hcmp
    have hnot : ¬ le t.rwCounterMax < le t.tpRecvCounterTmp := by omega
    simp only [replayCheck, hcmp, if_neg hnot]
    refine ⟨?_, t.rwShiftLo, t.rwShiftHi, rfl⟩
    have hreach : c64Policy.reach (le t.rwCounterMax) (le t.tpRecvCounterTmp) = true := by
      rw [reach_iff]
      omega
    have hc := hcheck t.rwShiftLo t.rwShiftHi
    rw [admits_of_le heq.le, window, hreach, Bool.true_and]
    exact hc
  · rw [Nat.compare_eq_gt.mpr hgt] at hcmp
    simp only [replayCheck, hcmp, if_pos hgt]
    refine ⟨?_, t.rwShiftLo, t.rwShiftHi, rfl⟩
    simp [admits, window, hgt]

/-- The update is the window's. -/
theorem windowUpdate_spec (t : TpMem)
    (hnew : t.rwNewCounter = if le t.rwCounterMax < le t.tpRecvCounterTmp then 1 else 0) :
    window (windowUpdate t) = accept c64Policy (window t) (le t.tpRecvCounterTmp) ∧
      (windowUpdate t).tpRecvCounter = counterInc64 (windowUpdate t).rwCounterMax := by
  have hset : ∀ u : TpMem, u.tpRecvCounterTmp = t.tpRecvCounterTmp → ∀ p,
      bitAt (justSetBit u).rwBitmap p =
        (p == le t.tpRecvCounterTmp % 2048 || bitAt u.rwBitmap p) := by
    intro u hu p
    have hq : le t.tpRecvCounterTmp % 2048 < 2048 := Nat.mod_lt _ (by omega)
    rw [← bitAt_put_or u.rwBitmap (byte rwBitMask (le t.tpRecvCounterTmp % 2048 % 8)) hq
      (toNat_rwBitMask (Nat.mod_lt _ (by omega))) p, justSetBit, hu, rwByteOffset_eq, rwBitIndex_eq]
  refine ⟨?_, rfl⟩
  rw [windowUpdate]
  by_cases hlt : le t.rwCounterMax < le t.tpRecvCounterTmp
  · rw [if_pos hlt] at hnew
    rw [if_neg (by rw [hnew]; decide)]
    have hbits : ∀ p, bitAt (advanceWindow t).rwBitmap p =
        (bitAt t.rwBitmap p && !c64Policy.cleared (le t.rwCounterMax) (le t.tpRecvCounterTmp) p) := by
      intro p
      generalize hd : sub16 (byte t.tpRecvCounterTmp 0) (byte t.tpRecvCounterTmp 1)
        (byte t.rwCounterMax 0) (byte t.rwCounterMax 1) = d
      have hall : c64Policy.cleared (le t.rwCounterMax) (le t.tpRecvCounterTmp) p = true →
          bitAt (zero 256) p = (bitAt t.rwBitmap p &&
            !c64Policy.cleared (le t.rwCounterMax) (le t.tpRecvCounterTmp) p) := by
        intro hc
        rw [hc, bitAt_zero, Bool.not_true, Bool.and_false]
      simp only [advanceWindow, hd]
      by_cases hblock : slice t.tpRecvCounterTmp 2 6 = slice t.rwCounterMax 2 6
      · rw [if_neg (not_not.mpr hblock)]
        rw [slice_block_eq_iff] at hblock
        have hdist := sub16_counter t.tpRecvCounterTmp t.rwCounterMax hlt.le hblock
        rw [hd] at hdist
        have hd₁ := d.1.toNat_lt
        by_cases hhi : d.2 = 0
        · have hz : d.2.toNat = 0 := by rw [hhi]; rfl
          have hnz : d.1 ≠ 0 := by
            intro hc
            have : d.1.toNat = 0 := by rw [hc]; rfl
            omega
          rw [if_neg (not_not.mpr hhi)]
          by_cases hp : p < 2048
          · rw [bitAt_clearShifted _ hp hnz]
            congr 2
            rw [Bool.eq_iff_iff, cleared_iff, decide_eq_true_eq]
            have hx : d.1.toNat = le t.tpRecvCounterTmp - le t.rwCounterMax := by omega
            simp only [hx]
            constructor
            · intro h
              exact Or.inr (Or.inr h)
            · rintro (h | h | h)
              · omega
              · omega
              · exact h
          · rw [bitAt_of_ge _ (by omega), bitAt_of_ge _ (by omega), Bool.false_and]
        · rw [if_pos hhi]
          have hz : d.2.toNat ≠ 0 := fun h => hhi (UInt8.toNat_inj.mp h)
          exact hall ((cleared_iff _ _ _).mpr (Or.inr (Or.inl (by omega))))
      · rw [if_pos hblock]
        rw [slice_block_eq_iff] at hblock
        exact hall ((cleared_iff _ _ _).mpr (Or.inl (fun h => hblock h.symm)))
    have hset' := hset (advanceWindow t) rfl
    rw [accept_of_lt _ hlt, window]
    congr 1
    funext p
    rw [hset', hbits]
    rfl
  · rw [if_neg hlt] at hnew
    rw [if_pos hnew, accept_of_le _ (Nat.le_of_not_lt hlt), window]
    congr 1
    funext p
    exact hset t rfl p

/-! ## `transport_decrypt` as a whole -/

/-- The packet is long enough to be a Type 4 packet and `aead_decrypt` accepts it. -/
def authentic (p : Primitives) (hsTransportRecv : Bytes 32) (udp : UdpRecv) : Bool :=
  decide (32 ≤ udp.udpRecvLen) &&
    (p.aeadDecrypt hsTransportRecv (transportBuildNonce (packetCounter udp)) []
      (slice udp.udpRecvBuf 16 (udp.udpRecvLen - 32))
      (slice udp.udpRecvBuf (16 + (udp.udpRecvLen - 32)) 16)).1

/-- The cells that belong to the session and not to the packet being decrypted. -/
def TpMem.session (t : TpMem) : Bytes 8 × Bytes 8 × Bytes 4 × Bytes 256 × Bytes 8 :=
  (t.tpSendCounter, t.tpRecvCounter, t.tpPeerRecvIdx, t.rwBitmap, t.rwCounterMax)

/-- `tp_packet` after the ciphertext was copied in and `aead_decrypt` ran over it. -/
def decryptedPacket (p : Primitives) (hsTransportRecv : Bytes 32) (udp : UdpRecv)
    (pkt : Bytes udpRecvBufSize) : Bytes udpRecvBufSize :=
  let data := slice udp.udpRecvBuf 16 (udp.udpRecvLen - 32)
  copyIn (copyIn pkt 16 data) 16
    (p.aeadDecrypt hsTransportRecv (transportBuildNonce (packetCounter udp)) [] data
      (slice udp.udpRecvBuf (16 + (udp.udpRecvLen - 32)) 16)).2

/-- Steps 5 to 8 on a packet of at least 32 bytes. -/
theorem decryptVerify_spec (p : Primitives) (key : Bytes 32) (udp : UdpRecv) (c : CryptoMem)
    (t : TpMem) (hlen : 32 ≤ udp.udpRecvLen) (hpay : t.tpPayloadLen = udp.udpRecvLen - 32)
    (hctr : t.tpRecvCounterTmp = packetCounter udp) :
    decryptVerify p key udp c t =
      (authentic p key udp, (decryptStage key udp c t).1,
        if authentic p key udp then
          windowUpdate { t with tpPacket := decryptedPacket p key udp t.tpPacket }
        else { t with tpPacket := decryptedPacket p key udp t.tpPacket }) := by
  have hmax := udp.udpRecvLen_le
  have hdata : slice (decryptStage key udp c t).2.tpPacket 16 t.tpPayloadLen =
      slice udp.udpRecvBuf 16 t.tpPayloadLen := by
    rw [decryptStage, copy16_eq, slice_copyIn_self]
    simp only [udpRecvBufSize] at hmax ⊢
    omega
  have hauth : authentic p key udp =
      (p.aeadDecrypt key (transportBuildNonce t.tpRecvCounterTmp) []
        (slice udp.udpRecvBuf 16 t.tpPayloadLen)
        (slice udp.udpRecvBuf (16 + t.tpPayloadLen) 16)).1 := by
    rw [authentic, decide_eq_true hlen, Bool.true_and, hpay, hctr]
  have hdec : decryptedPacket p key udp t.tpPacket =
      copyIn (copyIn t.tpPacket 16 (slice udp.udpRecvBuf 16 t.tpPayloadLen)) 16
        (p.aeadDecrypt key (transportBuildNonce t.tpRecvCounterTmp) []
          (slice udp.udpRecvBuf 16 t.tpPayloadLen)
          (slice udp.udpRecvBuf (16 + t.tpPayloadLen) 16)).2 := by
    rw [decryptedPacket, hpay, hctr]
  have hstage : (decryptStage key udp c t).2 =
      { t with tpPacket := copyIn t.tpPacket 16 (slice udp.udpRecvBuf 16 t.tpPayloadLen) } := by
    simp only [decryptStage, copy16_eq]
  have hkey : (decryptStage key udp c t).1.aeadKey = key := by simp only [decryptStage]
  have hnonce : (decryptStage key udp c t).1.aeadNonce = transportBuildNonce t.tpRecvCounterTmp := by
    simp only [decryptStage]
  have htag : (decryptStage key udp c t).1.aeadTag =
      slice udp.udpRecvBuf (16 + t.tpPayloadLen) 16 := by
    simp only [decryptStage]
  rw [hstage] at hdata
  simp only [decryptVerify, hstage, hkey, hnonce, htag, hdata, ← hauth, ← hdec]
  cases authentic p key udp <;> rfl

/-- A packet `transport_decrypt` accepts: Type 4, a counter below 2^60 that the window admits, and
authentic. -/
def accepts (p : Primitives) (hsTransportRecv : Bytes 32) (udp : UdpRecv) (t : TpMem) : Bool :=
  byte udp.udpRecvBuf 0 == 4 && decide (le (packetCounter udp) < 2 ^ 60) &&
    admits c64Policy (window t) (le (packetCounter udp)) && authentic p hsTransportRecv udp

/-- The cells at step 8, for scratch values `lo` and `hi`. -/
def decryptedMem (p : Primitives) (hsTransportRecv : Bytes 32) (udp : UdpRecv) (t : TpMem)
    (lo hi : UInt8) : TpMem :=
  { t with
    tpRecvCounterTmp := packetCounter udp
    rwNewCounter := if le t.rwCounterMax < le (packetCounter udp) then 1 else 0
    rwShiftLo := lo
    rwShiftHi := hi
    tpPayloadLen := udp.udpRecvLen - 32
    tpPacket := decryptedPacket p hsTransportRecv udp t.tpPacket }

/-- **What `transport_decrypt` does.** It accepts exactly the packets `accepts` names and then
updates the window; otherwise the session cells are as before. Either way the hash cells are. -/
theorem transportDecrypt_cases (p : Primitives) (key : Bytes 32) (udp : UdpRecv) (c : CryptoMem)
    (t : TpMem) :
    (accepts p key udp t = true ∧ ∃ lo hi c', transportDecrypt p key udp c t =
        (true, c', windowUpdate (decryptedMem p key udp t lo hi)) ∧ c'.b2s = c.b2s) ∨
    (accepts p key udp t = false ∧ ∃ c' t', transportDecrypt p key udp c t = (false, c', t') ∧
        c'.b2s = c.b2s ∧ t'.session = t.session) := by
  rw [transportDecrypt, accepts]
  by_cases htype : byte udp.udpRecvBuf 0 = 4
  swap
  · rw [if_pos htype, beq_eq_false_iff_ne.mpr htype]
    exact Or.inr ⟨rfl, c, t, rfl, rfl, rfl⟩
  rw [if_neg (not_not.mpr htype), beq_iff_eq.mpr htype, Bool.true_and]
  have hlim := top_byte_lt_iff (packetCounter udp)
  by_cases h60 : le (packetCounter udp) < 2 ^ 60
  swap
  · rw [decide_eq_false h60]
    simp only [if_pos (not_not.mp (fun h => h60 (hlim.mp h)))]
    exact Or.inr ⟨rfl, c, _, rfl, rfl, rfl⟩
  rw [decide_eq_true h60, Bool.true_and]
  obtain ⟨hadm, lo, hi, hcells⟩ := replayCheck_spec { t with tpRecvCounterTmp := packetCounter udp }
  change _ = admits c64Policy (window t) (le (packetCounter udp)) at hadm
  simp only [if_neg (hlim.mpr h60), hadm, hcells]
  cases admits c64Policy (window t) (le (packetCounter udp)) with
  | false => exact Or.inr ⟨rfl, c, _, rfl, rfl, rfl⟩
  | true =>
      rw [if_pos rfl, Bool.true_and]
      by_cases hlen : udp.udpRecvLen < 32
      · rw [if_pos hlen, authentic, decide_eq_false (Nat.not_le.mpr hlen)]
        exact Or.inr ⟨rfl, c, _, rfl, rfl, rfl⟩
      · have hmax := udp.udpRecvLen_le
        have hpay : (udp.udpRecvLen + 65536 - 32) % 65536 = udp.udpRecvLen - 32 := by
          simp only [udpRecvBufSize] at hmax
          omega
        rw [if_neg hlen, hpay, decryptVerify_spec _ _ _ _ _ (Nat.le_of_not_lt hlen) rfl rfl]
        cases authentic p key udp with
        | false => exact Or.inr ⟨rfl, _, _, rfl, rfl, rfl⟩
        | true => exact Or.inl ⟨rfl, lo, hi, _, rfl, rfl⟩

theorem transportDecrypt_ok (p : Primitives) (key : Bytes 32) (udp : UdpRecv) (c : CryptoMem)
    (t : TpMem) : (transportDecrypt p key udp c t).1 = accepts p key udp t := by
  obtain ⟨hacc, _, _, _, h, -⟩ | ⟨hacc, _, _, h, -⟩ := transportDecrypt_cases p key udp c t
  · rw [h, hacc]
  · rw [h, hacc]

/-- A rejected packet leaves the session cells as they were. -/
theorem transportDecrypt_rejects {p : Primitives} {key : Bytes 32} {udp : UdpRecv} {c : CryptoMem}
    {t : TpMem} (h : accepts p key udp t = false) :
    (transportDecrypt p key udp c t).2.2.session = t.session := by
  obtain ⟨hacc, -⟩ | ⟨-, _, t', heq, -, hsess⟩ := transportDecrypt_cases p key udp c t
  · rw [h] at hacc
    cases hacc
  · rw [heq, hsess]

/-- An accepted packet moves the window as the policy says. -/
theorem transportDecrypt_window {p : Primitives} {key : Bytes 32} {udp : UdpRecv} {c : CryptoMem}
    {t : TpMem} (h : accepts p key udp t = true) :
    window (transportDecrypt p key udp c t).2.2 =
        accept c64Policy (window t) (le (packetCounter udp)) ∧
      (transportDecrypt p key udp c t).2.2.tpRecvCounter =
        counterInc64 (transportDecrypt p key udp c t).2.2.rwCounterMax := by
  obtain ⟨-, lo, hi, c', heq, -⟩ | ⟨hacc, -⟩ := transportDecrypt_cases p key udp c t
  · rw [heq]
    exact windowUpdate_spec (decryptedMem p key udp t lo hi) rfl
  · rw [h] at hacc
    cases hacc

theorem windowUpdate_send (t : TpMem) :
    (windowUpdate t).tpSendCounter = t.tpSendCounter ∧
      (windowUpdate t).tpPeerRecvIdx = t.tpPeerRecvIdx := by
  rw [windowUpdate]
  split <;> exact ⟨rfl, rfl⟩

/-- Receiving never touches the send counter or the peer's index. -/
theorem transportDecrypt_send (p : Primitives) (key : Bytes 32) (udp : UdpRecv) (c : CryptoMem)
    (t : TpMem) :
    (transportDecrypt p key udp c t).2.2.tpSendCounter = t.tpSendCounter ∧
      (transportDecrypt p key udp c t).2.2.tpPeerRecvIdx = t.tpPeerRecvIdx := by
  obtain ⟨-, lo, hi, c', heq, -⟩ | ⟨-, _, t', heq, -, hsess⟩ :=
    transportDecrypt_cases p key udp c t
  · rw [heq]
    exact windowUpdate_send (decryptedMem p key udp t lo hi)
  · rw [heq]
    simp only [TpMem.session, Prod.mk.injEq] at hsess
    exact ⟨hsess.1, hsess.2.2.1⟩

end C64WireGuard
