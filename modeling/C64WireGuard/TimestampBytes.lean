import C64WireGuard.Lib.Alu
import C64WireGuard.Timestamps

/-!
# `tai64n_now` on its cells

The clock difference, the division by 60 and the big-endian sums, byte by byte as the routine makes
them. They are the sums of `tai64nNow` (`tai64nNowBytes_eq`), and with the number of calls made so far
they give the timestamp in closed form (`tai64nNow_candidate`).
-/

namespace C64WireGuard

open Bytes Alu

/-! ## Three-byte cells -/

/-- A 24-bit number in three cells. -/
structure Cells24 where
  hi : UInt8
  mid : UInt8
  lo : UInt8

namespace Cells24

def toNat (c : Cells24) : Nat := 65536 * c.hi.toNat + 256 * c.mid.toNat + c.lo.toNat

/-- Three zeros. -/
def clear : Cells24 := ⟨0, 0, 0⟩

/-- `inc` from the low cell up, while a cell wraps. -/
def inc (c : Cells24) : Cells24 :=
  let lo := c.lo + 1
  if lo ≠ 0 then { c with lo := lo }
  else
    let mid := c.mid + 1
    if mid ≠ 0 then { c with mid := mid, lo := lo } else ⟨c.hi + 1, mid, lo⟩

theorem toNat_lt (c : Cells24) : c.toNat < 2 ^ 24 := by
  have hhi := c.hi.toNat_lt
  have hmid := c.mid.toNat_lt
  have hlo := c.lo.toNat_lt
  unfold toNat
  omega

theorem toNat_inc (c : Cells24) : c.inc.toNat = (c.toNat + 1) % 2 ^ 24 := by
  have hhi := c.hi.toNat_lt
  have hmid := c.mid.toNat_lt
  have hlo := c.lo.toNat_lt
  simp only [inc]
  by_cases h₁ : c.lo + 1 = 0
  · have hlo₁ := (byte_succ_eq_zero_iff c.lo).mp h₁
    rw [if_neg (not_not.mpr h₁)]
    by_cases h₂ : c.mid + 1 = 0
    · have hmid₁ := (byte_succ_eq_zero_iff c.mid).mp h₂
      rw [if_neg (not_not.mpr h₂)]
      simp only [toNat, h₁, h₂, UInt8.toNat_add, UInt8.reduceToNat]
      omega
    · have hmid₁ := mt (byte_succ_eq_zero_iff c.mid).mpr h₂
      rw [if_pos h₂]
      simp only [toNat, h₁, UInt8.toNat_add, UInt8.reduceToNat]
      omega
  · have hlo₁ := mt (byte_succ_eq_zero_iff c.lo).mpr h₁
    rw [if_pos h₁]
    simp only [toNat, UInt8.toNat_add, UInt8.reduceToNat]
    omega

end Cells24

/-! ## The routine -/

/-- `@elapsed`: the clock less the anchor, a day added after a borrow. -/
def elapsedCells (now anchor : Bytes 3) : Cells24 :=
  let lo := sbc (byte now 2) (byte anchor 2) true
  let mid := sbc (byte now 1) (byte anchor 1) lo.2
  let hi := sbc (byte now 0) (byte anchor 0) mid.2
  if hi.2 then ⟨hi.1, mid.1, lo.1⟩
  else
    let mid' := adc mid.1 0x1a false
    let hi' := adc hi.1 0x4f mid'.2
    ⟨hi'.1, mid'.1, lo.1⟩

/-- `@can_sub`: take 60 off. -/
def canSub (elapsed : Cells24) : Cells24 :=
  let lo := sbc elapsed.lo 60 true
  let mid := sbc elapsed.mid 0 lo.2
  let hi := sbc elapsed.hi 0 mid.2
  ⟨hi.1, mid.1, lo.1⟩

/-- `@div_loop`, from `@elapsed` and `@seconds`; `none` when it is not done in time. -/
def divLoopCells : Nat → Cells24 → Cells24 → Option Cells24
  | 0, _, _ => none
  | fuel + 1, elapsed, seconds =>
    if elapsed.hi = 0 ∧ elapsed.mid = 0 ∧ elapsed.lo < 60 then some seconds
    else divLoopCells fuel (canSub elapsed) seconds.inc

/-- The base time plus `@seconds`: the low three bytes are added, then `@carry_prop` goes up. -/
def addSeconds (base : Bytes 8) (seconds : Cells24) : Bytes 8 :=
  let low := addLe [byte base 7, byte base 6, byte base 5] [seconds.lo, seconds.mid, seconds.hi] false
  let high := carryLe [byte base 4, byte base 3, byte base 2, byte base 1, byte base 0] low.2
  ofList 8 (low.1 ++ high.1).reverse

/-- `@inc_seq`: the carry is set at first, and the loop ends when it clears. -/
def incSeq (seq : Bytes 4) : Bytes 4 :=
  ofList 4 (carryLe [byte seq 3, byte seq 2, byte seq 1, byte seq 0] true).1.reverse

/-- `@cmp_last`, top byte first: whether to go to `@keep`. -/
def cmpLast : List UInt8 → List UInt8 → Bool
  | t :: ts, l :: ls => if t < l then false else if t ≠ l then true else cmpLast ts ls
  | _, _ => false

/-- `tai64n_increment`: the nanoseconds, and after a carry out of them the seconds. -/
def tai64nIncrementBytes (ts : Bytes 12) : Bytes 12 :=
  let nano := carryLe [byte ts 11, byte ts 10, byte ts 9, byte ts 8] true
  if nano.2 then
    let seconds := carryLe [byte ts 7, byte ts 6, byte ts 5, byte ts 4, byte ts 3, byte ts 2,
      byte ts 1, byte ts 0] true
    copyIn (copyIn ts 8 (zero 4)) 0 (ofList 8 seconds.1.reverse)
  else copyIn ts 8 (ofList 4 nano.1.reverse)

/-- `tai64n_now` up to its guard: the sequence number and the candidate. -/
def candidateBytes (fuel : Nat) (now : Bytes 3) (base : Bytes 8) (tai : TaiMem) :
    Option (Bytes 4 × Bytes 12) :=
  (divLoopCells fuel (elapsedCells now tai.tai64nInitJiffy) .clear).map fun seconds =>
    let seq := incSeq tai.tai64nSeq
    (seq, copyIn (copyIn (zero 12) 0 (addSeconds base seconds)) 8 seq)

/-- `tai64n_now`. -/
def tai64nNowBytes (fuel : Nat) (now : Bytes 3) (base : Bytes 8) (tai : TaiMem) :
    Option (TaiMem × Bytes 12) :=
  (candidateBytes fuel now base tai).map fun c =>
    let ts := if cmpLast c.2.toList tai.tai64nLast.toList then c.2
      else tai64nIncrementBytes tai.tai64nLast
    ({ tai with tai64nSeq := c.1, tai64nLast := ts }, ts)

/-! ## The numbers in the cells -/

theorem be_inj {n : Nat} {a b : Bytes n} : be a = be b ↔ a = b := by
  constructor
  · intro h
    have hrev := leNat_inj (by simp) h
    exact toList_inj.mp (List.reverse_injective hrev)
  · rintro rfl
    rfl

/-- A buffer stored from a list, low byte first. -/
theorem be_ofList_reverse {n : Nat} {bs : List UInt8} (h : bs.length = n) :
    be (ofList n bs.reverse) = leNat bs := by
  rw [be, beNat, toList_ofList (by simp [h]), List.reverse_reverse]

/-- The bytes of a buffer, last one first. -/
theorem be_eq_leNat {n : Nat} (b : Bytes n) :
    be b = leNat ((List.range n).map (byte b)).reverse := by
  have h := toList_slice_range b 0 n
  rw [slice_self] at h
  simp only [Nat.zero_add] at h
  rw [be, beNat, h]

theorem be_three (b : Bytes 3) :
    be b = 65536 * (byte b 0).toNat + 256 * (byte b 1).toNat + (byte b 2).toNat := by
  rw [be_eq_leNat]
  simp [List.range_succ, leNat]
  omega

theorem be_jiffyAt (t : Nat) : be (jiffyAt t) = t % jiffyPeriod := by
  have hbytes : byte (jiffyAt t) 0 = UInt8.ofNat (t % jiffyPeriod / 65536) ∧
      byte (jiffyAt t) 1 = UInt8.ofNat (t % jiffyPeriod / 256) ∧
      byte (jiffyAt t) 2 = UInt8.ofNat (t % jiffyPeriod) := ⟨rfl, rfl, rfl⟩
  obtain ⟨h₀, h₁, h₂⟩ := hbytes
  rw [be_three, h₀, h₁, h₂]
  simp only [jiffyPeriod, UInt8.toNat_ofNat']
  omega

/-- The two chains of `@elapsed`, carry by carry. -/
theorem toNat_elapsedCells (now anchor : Bytes 3) :
    (elapsedCells now anchor).toNat = elapsedJiffies now anchor := by
  have hlo := sbc_spec (byte now 2) (byte anchor 2) true
  have hmid := sbc_spec (byte now 1) (byte anchor 1) (sbc (byte now 2) (byte anchor 2) true).2
  have hhi := sbc_spec (byte now 0) (byte anchor 0)
    (sbc (byte now 1) (byte anchor 1) (sbc (byte now 2) (byte anchor 2) true).2).2
  have hnow := be_lt now
  have hanchor := be_lt anchor
  simp only [elapsedCells, elapsedJiffies, jiffyPeriod]
  rw [be_three] at hnow hanchor ⊢
  rw [be_three anchor]
  generalize sbc (byte now 2) (byte anchor 2) true = lo at hlo hmid hhi ⊢
  generalize sbc (byte now 1) (byte anchor 1) lo.2 = mid at hmid hhi ⊢
  generalize sbc (byte now 0) (byte anchor 0) mid.2 = hi at hhi ⊢
  have hmid' := adc_spec mid.1 0x1a false
  have hhi' := adc_spec hi.1 0x4f (adc mid.1 0x1a false).2
  generalize adc mid.1 0x1a false = mid' at hmid' hhi' ⊢
  generalize adc hi.1 0x4f mid'.2 = hi' at hhi' ⊢
  have hlt := Cells24.toNat_lt ⟨hi.1, mid.1, lo.1⟩
  have hlt' := Cells24.toNat_lt ⟨hi'.1, mid'.1, lo.1⟩
  have hcarry := hi'.2.toNat_le
  simp only [Cells24.toNat] at hlt hlt'
  cases h : hi.2 with
  | false =>
    rw [h, Bool.toNat_false] at hhi
    simp only [Bool.toNat_true, Bool.toNat_false, UInt8.reduceToNat] at hlo hmid hhi hmid' hhi'
    rw [if_neg (by simp), if_pos (by omega)]
    simp only [Cells24.toNat]
    omega
  | true =>
    rw [h, Bool.toNat_true] at hhi
    simp only [Bool.toNat_true] at hlo
    rw [if_pos rfl, if_neg (by omega)]
    simp only [Cells24.toNat]
    omega

/-- A pass that subtracts takes 60 off. -/
theorem toNat_canSub {e : Cells24} (h : 60 ≤ e.toNat) : (canSub e).toNat + 60 = e.toNat := by
  have hlo := sbc_spec e.lo 60 true
  have hmid := sbc_spec e.mid 0 (sbc e.lo 60 true).2
  have hhi := sbc_spec e.hi 0 (sbc e.mid 0 (sbc e.lo 60 true).2).2
  have hlt := Cells24.toNat_lt (canSub e)
  have he := Cells24.toNat_lt e
  simp only [canSub] at hlt ⊢
  generalize sbc e.lo 60 true = lo at hlo hmid hhi hlt ⊢
  generalize sbc e.mid 0 lo.2 = mid at hmid hhi hlt ⊢
  generalize sbc e.hi 0 mid.2 = hi at hhi hlt ⊢
  have hcarry := hi.2.toNat_le
  simp only [Bool.toNat_true, UInt8.reduceToNat] at hlo hmid hhi
  simp only [Cells24.toNat] at h he hlt ⊢
  omega

/-- The test before a pass. -/
theorem lt_sixty_iff (e : Cells24) : (e.hi = 0 ∧ e.mid = 0 ∧ e.lo < 60) ↔ e.toNat < 60 := by
  have hzero : ∀ b : UInt8, b = 0 ↔ b.toNat = 0 := fun b => by
    rw [← UInt8.toNat_inj, UInt8.toNat_zero]
  simp only [hzero, UInt8.lt_iff_toNat_lt, UInt8.reduceToNat, Cells24.toNat]
  omega

/-- **The division ends**, in as many passes as the quotient and one more. -/
theorem divLoopCells_spec {fuel : Nat} {e s : Cells24} (h : e.toNat / 60 < fuel) :
    ∃ q, divLoopCells fuel e s = some q ∧ q.toNat = (s.toNat + e.toNat / 60) % 2 ^ 24 := by
  induction fuel generalizing e s with
  | zero => exact absurd h (Nat.not_lt_zero _)
  | succ fuel ih =>
    rw [divLoopCells]
    by_cases hlt : e.toNat < 60
    · have hs := Cells24.toNat_lt s
      rw [if_pos ((lt_sixty_iff e).mpr hlt)]
      exact ⟨s, rfl, by omega⟩
    · have hsub := toNat_canSub (Nat.le_of_not_lt hlt)
      obtain ⟨q, hq, hval⟩ := ih (e := canSub e) (s := s.inc) (by omega)
      rw [if_neg (mt (lt_sixty_iff e).mp hlt)]
      refine ⟨q, hq, ?_⟩
      rw [hval, Cells24.toNat_inc]
      omega

/-- The quotient is the loop's on numbers. -/
theorem divLoop_eq {fuel e s : Nat} (h : e / 60 ≤ fuel) (hs : s < 2 ^ 24) :
    divLoop fuel e s = (s + e / 60) % 2 ^ 24 := by
  induction fuel generalizing e s with
  | zero =>
    rw [divLoop]
    omega
  | succ fuel ih =>
    rw [divLoop]
    split
    · omega
    · rw [ih (by omega) (Nat.mod_lt _ (by decide))]
      omega

theorem be_addSeconds (base : Bytes 8) (seconds : Cells24) :
    be (addSeconds base seconds) = (be base + seconds.toNat) % 2 ^ 64 := by
  have hthree : [byte base 7, byte base 6, byte base 5].length =
      [seconds.lo, seconds.mid, seconds.hi].length := rfl
  have hlow := leNat_addLe hthree false
  have hlen := length_addLe hthree false
  have hbase : be base = leNat [byte base 7, byte base 6, byte base 5] +
      2 ^ 24 * leNat [byte base 4, byte base 3, byte base 2, byte base 1, byte base 0] := by
    rw [be_eq_leNat]
    simp [List.range_succ, leNat]
    omega
  have hsec : leNat [seconds.lo, seconds.mid, seconds.hi] = seconds.toNat := by
    simp [leNat, Cells24.toNat]
    omega
  have hlt := be_lt (addSeconds base seconds)
  simp only [addSeconds] at hlt ⊢
  have hhigh := leNat_carryLe [byte base 4, byte base 3, byte base 2, byte base 1, byte base 0]
    (addLe [byte base 7, byte base 6, byte base 5] [seconds.lo, seconds.mid, seconds.hi] false).2
  have hlen' := length_carryLe [byte base 4, byte base 3, byte base 2, byte base 1, byte base 0]
    (addLe [byte base 7, byte base 6, byte base 5] [seconds.lo, seconds.mid, seconds.hi] false).2
  generalize addLe _ _ false = low at hlow hlen hhigh hlen' hlt ⊢
  generalize carryLe _ low.2 = high at hhigh hlen' hlt ⊢
  rw [be_ofList_reverse (by rw [List.length_append, hlen, hlen']; rfl), leNat_append, hlen] at hlt ⊢
  have hcarry := high.2.toNat_le
  simp only [List.length_cons, List.length_nil, Bool.toNat_false] at hlow hhigh hlt ⊢
  omega

theorem be_incSeq (seq : Bytes 4) : be (incSeq seq) = (be seq + 1) % 2 ^ 32 := by
  have hseq : be seq = leNat [byte seq 3, byte seq 2, byte seq 1, byte seq 0] := by
    rw [be_eq_leNat]
    rfl
  rw [incSeq, be_ofList_reverse (by rw [length_carryLe]; rfl), (carryLe_inc _).1, hseq]
  norm_num

/-- The comparison keeps a candidate that is above. -/
theorem cmpLast_iff {ts ls : List UInt8} (hlen : ts.length = ls.length) :
    cmpLast ts ls = true ↔ beNat ls < beNat ts := by
  have hcons : ∀ (b : UInt8) (bs : List UInt8),
      beNat (b :: bs) = beNat bs + 256 ^ bs.length * b.toNat := by
    intro b bs
    rw [beNat, List.reverse_cons, leNat_append, List.length_reverse]
    simp [beNat, leNat]
  have hbound : ∀ bs : List UInt8, beNat bs < 256 ^ bs.length := by
    intro bs
    have h := leNat_lt bs.reverse
    rwa [List.length_reverse] at h
  induction ts generalizing ls with
  | nil =>
    obtain rfl : ls = [] := List.eq_nil_of_length_eq_zero hlen.symm
    simp [cmpLast]
  | cons t ts ih =>
    cases ls with
    | nil => simp at hlen
    | cons l ls =>
      have hlen' : ts.length = ls.length := Nat.succ.inj hlen
      have hts := hbound ts
      have hls := hbound ls
      rw [hcons, hcons, cmpLast]
      rw [hlen'] at hts ⊢
      rcases Nat.lt_trichotomy t.toNat l.toNat with hlt | heq | hgt
      · have hmul : 256 ^ ls.length * (t.toNat + 1) ≤ 256 ^ ls.length * l.toNat :=
          Nat.mul_le_mul_left _ hlt
        rw [if_pos (UInt8.lt_iff_toNat_lt.mpr hlt)]
        rw [Nat.mul_add] at hmul
        simp only [Bool.false_eq_true, false_iff]
        omega
      · obtain rfl : t = l := UInt8.toNat_inj.mp heq
        have hrest : cmpLast ts ls = true ↔ beNat ls < beNat ts := ih hlen'
        rw [if_neg (UInt8.lt_irrefl t), if_neg (by simp), hrest]
        omega
      · have hmul : 256 ^ ls.length * (l.toNat + 1) ≤ 256 ^ ls.length * t.toNat :=
          Nat.mul_le_mul_left _ hgt
        have hne : t ≠ l := fun h => absurd (congrArg UInt8.toNat h) (by omega)
        rw [if_neg (fun h => absurd (UInt8.lt_iff_toNat_lt.mp h) (by omega)), if_pos hne]
        rw [Nat.mul_add] at hmul
        simp only [true_iff]
        omega

theorem tai64nIncrementBytes_eq (ts : Bytes 12) : tai64nIncrementBytes ts = tai64nIncrement ts := by
  have hnano : be (slice ts 8 4) = leNat [byte ts 11, byte ts 10, byte ts 9, byte ts 8] := by
    rw [be_eq_leNat]
    simp [List.range_succ]
  have hsecs : be (slice ts 0 8) = leNat [byte ts 7, byte ts 6, byte ts 5, byte ts 4, byte ts 3,
      byte ts 2, byte ts 1, byte ts 0] := by
    rw [be_eq_leNat]
    simp [List.range_succ]
  have hlt := be_lt (slice ts 8 4)
  obtain ⟨hval, hcarry⟩ := carryLe_inc [byte ts 11, byte ts 10, byte ts 9, byte ts 8]
  have hval' := (carryLe_inc [byte ts 7, byte ts 6, byte ts 5, byte ts 4, byte ts 3, byte ts 2,
    byte ts 1, byte ts 0]).1
  rw [← hnano] at hval hcarry
  rw [← hsecs] at hval'
  simp only [List.length_cons, List.length_nil] at hval hcarry hval'
  simp only [tai64nIncrementBytes, tai64nIncrement]
  by_cases h : be (slice ts 8 4) + 1 < 2 ^ 32
  · rw [if_neg (mt hcarry.mp (by omega)), if_pos h]
    refine congrArg (copyIn ts 8) (be_inj.mp ?_)
    rw [be_ofList_reverse (by rw [length_carryLe]; rfl), hval, be_ofBe]
  · rw [if_pos (hcarry.mpr (by omega)), if_neg h]
    refine congrArg (copyIn (copyIn ts 8 (zero 4)) 0) (be_inj.mp ?_)
    rw [be_ofList_reverse (by rw [length_carryLe]; rfl), hval', be_ofBe]
    omega

/-- The candidate is that of the numbers, once the division had its passes. -/
theorem candidateBytes_eq {fuel : Nat} {now : Bytes 3} (base : Bytes 8) {tai : TaiMem}
    (h : elapsedJiffies now tai.tai64nInitJiffy / 60 < fuel) :
    candidateBytes fuel now base tai = some (tai64nCandidate now base tai) := by
  have helapsed := toNat_elapsedCells now tai.tai64nInitJiffy
  have hlt := Cells24.toNat_lt (elapsedCells now tai.tai64nInitJiffy)
  obtain ⟨q, hq, hval⟩ := divLoopCells_spec (e := elapsedCells now tai.tai64nInitJiffy) (s := .clear)
    (by rwa [helapsed])
  have hquot : q.toNat = divLoop (elapsedJiffies now tai.tai64nInitJiffy)
      (elapsedJiffies now tai.tai64nInitJiffy) 0 := by
    rw [divLoop_eq (Nat.div_le_self _ _) (by decide), hval, helapsed]
    rfl
  have hseq : incSeq tai.tai64nSeq = ofBe 4 ((be tai.tai64nSeq + 1) % 2 ^ 32) := by
    rw [← be_inj, be_incSeq, be_ofBe]
    exact (Nat.mod_mod _ _).symm
  have hsecs : addSeconds base q = ofBe 8 ((be base + q.toNat) % 2 ^ 64) := by
    rw [← be_inj, be_addSeconds, be_ofBe]
    exact (Nat.mod_mod _ _).symm
  rw [candidateBytes, hq, Option.map_some, hseq, hsecs, hquot]
  rfl

/-- **The cells hold the numbers**: the routine is `tai64nNow`. -/
theorem tai64nNowBytes_eq {fuel : Nat} {now : Bytes 3} (base : Bytes 8) {tai : TaiMem}
    (h : elapsedJiffies now tai.tai64nInitJiffy / 60 < fuel) :
    tai64nNowBytes fuel now base tai = some (tai64nNow now base tai) := by
  have hkeep : cmpLast (tai64nCandidate now base tai).2.toList tai.tai64nLast.toList = true ↔
      be tai.tai64nLast < be (tai64nCandidate now base tai).2 := cmpLast_iff (by simp)
  rw [tai64nNowBytes, candidateBytes_eq base h, Option.map_some, tai64nNow, tai64nIncrementBytes_eq]
  dsimp only
  by_cases hle : be (tai64nCandidate now base tai).2 ≤ be tai.tai64nLast
  · rw [if_neg (mt hkeep.mp (by omega)), if_pos hle]
  · rw [if_pos (hkeep.mpr (by omega)), if_neg hle]

/-! ## The timestamp in closed form -/

/-- The count after a call: `tai64n_now` adds one, an anchor starts again from zero. -/
def countCall (s : Timeline) (n : Nat) : TimeCall → Nat
  | .stageBase _ => n
  | .sync _ => if s.tai64nBaseTime = s.tai.tai64nInitBase then n else 0
  | .init _ => 0
  | .now _ => n + 1

/-- The calls of `tai64n_now` since the timeline was last anchored, `n` of them made before. -/
def nowCount : List TimeCall → Timeline → Nat → Nat
  | [], _, n => n
  | c :: cs, s, n => nowCount cs (timeCall s c).2 (countCall s n c)

/-- The sequence number counts them. -/
theorem be_tai64nSeq (calls : List TimeCall) {s : Timeline} {n : Nat}
    (h : be s.tai.tai64nSeq = n % 2 ^ 32) :
    be (timeRun calls s).2.tai.tai64nSeq = nowCount calls s n % 2 ^ 32 := by
  induction calls generalizing s n with
  | nil => exact h
  | cons c cs ih =>
    have hzero : be (zero 4) = 0 := by simp [be_eq_leNat, List.range_succ, leNat]
    rw [timeRun, nowCount]
    apply ih
    cases c with
    | stageBase base => exact h
    | init jiffy => exact hzero
    | sync jiffy =>
      simp only [timeCall, tai64nSync, countCall]
      split
      · exact h
      · exact hzero
    | now jiffy =>
      simp only [timeCall, tai64nNow, tai64nCandidate, countCall]
      rw [be_ofBe, h]
      omega

/-- Readings `k` ticks apart, a day's rollover between them or not. -/
theorem elapsedJiffies_eq {now anchor : Bytes 3} {k : Nat} (hanchor : be anchor < jiffyPeriod)
    (hk : k < jiffyPeriod) (hnow : be now = (be anchor + k) % jiffyPeriod) :
    elapsedJiffies now anchor = k := by
  simp only [jiffyPeriod] at hanchor hk hnow
  simp only [elapsedJiffies, jiffyPeriod]
  by_cases h : be now < be anchor
  · rw [if_pos h]
    omega
  · rw [if_neg h]
    omega

/-- **The timestamp, before its guard.** `k` jiffies after the anchor, the division gets done, for
every elapsed value there is, the seconds are the base time and `k / 60`, and the nanoseconds the calls
since the timeline was anchored, this one included. A candidate above the last timestamp is what
`tai64n_now` emits. -/
theorem tai64nNow_candidate {start : Timeline} (hstart : start.tai.tai64nSeq = zero 4)
    (calls : List TimeCall) (base : Bytes 8) {now : Bytes 3} {k : Nat}
    (hanchor : be (timeRun calls start).2.tai.tai64nInitJiffy < jiffyPeriod) (hk : k < jiffyPeriod)
    (hnow : be now = (be (timeRun calls start).2.tai.tai64nInitJiffy + k) % jiffyPeriod) :
    let tai := (timeRun calls start).2.tai
    (∀ fuel, k / 60 < fuel → ∃ c, candidateBytes fuel now base tai = some c ∧
        be (slice c.2 0 8) = (be base + k / 60) % 2 ^ 64 ∧
        nanoseconds c.2 = (nowCount calls start 0 + 1) % 2 ^ 32 ∧
        (be tai.tai64nLast < be c.2 →
          tai64nNowBytes fuel now base tai =
            some ({ tai with tai64nSeq := c.1, tai64nLast := c.2 }, c.2))) ∧
      ∀ elapsed : Cells24, ∃ fuel seconds, divLoopCells fuel elapsed .clear = some seconds := by
  have hzero : be (zero 4) = 0 := by decide +kernel
  have hcount := be_tai64nSeq calls (n := 0) (by rw [hstart, hzero, Nat.zero_mod])
  dsimp only
  generalize (timeRun calls start).2.tai = tai at *
  have helapsed : elapsedJiffies now tai.tai64nInitJiffy = k := elapsedJiffies_eq hanchor hk hnow
  constructor
  · intro fuel hfuel
    have henough : elapsedJiffies now tai.tai64nInitJiffy / 60 < fuel := by rwa [helapsed]
    have hdiv : divLoop k k 0 = k / 60 := by
      unfold jiffyPeriod at hk
      rw [divLoop_eq (Nat.div_le_self _ _) (by decide), Nat.zero_add, Nat.mod_eq_of_lt (by omega)]
    refine ⟨tai64nCandidate now base tai, candidateBytes_eq base henough, ?_, ?_, fun habove => ?_⟩
    · simp only [tai64nCandidate, helapsed, hdiv]
      rw [slice_seconds_copyIn, slice_copyIn_seconds, be_ofBe]
      exact Nat.mod_mod _ _
    · simp only [tai64nCandidate]
      rw [nanoseconds_copyIn, be_ofBe, hcount]
      omega
    · rw [tai64nNowBytes_eq base henough, tai64nNow]
      simp only [if_neg (Nat.not_le.mpr habove)]
  · intro elapsed
    obtain ⟨seconds, hseconds, -⟩ :=
      divLoopCells_spec (e := elapsed) (s := .clear) (Nat.lt_succ_self (elapsed.toNat / 60))
    exact ⟨_, seconds, hseconds⟩

/-- Anchored two jiffies before midnight, and called two minutes later. -/
theorem tai64nNow_candidate_midnight :
    let start : Timeline := ⟨⟨zero 3, zero 4, zero 12, zero 8⟩, zero 8, zero 12⟩
    let tai := (timeRun [.init #v[0x4f, 0x19, 0xfe]] start).2.tai
    ∃ c, candidateBytes 121 #v[0x00, 0x1c, 0x1e] (ofBe 8 1000) tai = some c ∧
      be (slice c.2 0 8) = (be (ofBe 8 1000) + 7200 / 60) % 2 ^ 64 ∧ nanoseconds c.2 = 1 := by
  have hseq : (⟨⟨zero 3, zero 4, zero 12, zero 8⟩, zero 8, zero 12⟩ : Timeline).tai.tai64nSeq =
      zero 4 := rfl
  have hnow : be (#v[0x00, 0x1c, 0x1e] : Bytes 3) =
      (be (#v[0x4f, 0x19, 0xfe] : Bytes 3) + 7200) % jiffyPeriod := by decide +kernel
  obtain ⟨c, hc, hsecs, hnano, -⟩ := (tai64nNow_candidate hseq [.init #v[0x4f, 0x19, 0xfe]] (ofBe 8 1000)
    (by decide +kernel) (by decide) hnow).1 121 (by decide)
  exact ⟨c, hc, hsecs, hnano⟩

end C64WireGuard
