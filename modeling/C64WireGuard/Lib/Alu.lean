import C64WireGuard.Lib.Multibyte

/-!
# The adder of an 8-bit machine

`adc` and `sbc` take a carry in and give a carry out, and longer numbers are added byte by byte, low
byte first. Each chain is an equation between numbers in which its last carry stands for the part
that does not fit (`leNat_addLe`, `leNat_subLe`, `leNat_carryLe`).
-/

namespace Alu

/-! ## One byte -/

/-- `adc`: the sum, and the carry out. -/
def adc (a b : UInt8) (c : Bool) : UInt8 × Bool :=
  (UInt8.ofNat (a.toNat + b.toNat + c.toNat), decide (256 ≤ a.toNat + b.toNat + c.toNat))

/-- `sbc`: the difference, and the carry out. A clear carry is a borrow, going in and coming out. -/
def sbc (a b : UInt8) (c : Bool) : UInt8 × Bool :=
  (UInt8.ofNat (a.toNat + 255 + c.toNat - b.toNat),
    decide (256 ≤ a.toNat + 255 + c.toNat - b.toNat))

theorem adc_spec (a b : UInt8) (c : Bool) :
    (adc a b c).1.toNat + 256 * (adc a b c).2.toNat = a.toNat + b.toNat + c.toNat := by
  have ha := a.toNat_lt
  have hb := b.toNat_lt
  have hc := c.toNat_le
  simp only [adc, UInt8.toNat_ofNat', Nat.reducePow]
  by_cases h : 256 ≤ a.toNat + b.toNat + c.toNat
  · rw [decide_eq_true h, Bool.toNat_true]
    omega
  · rw [decide_eq_false h, Bool.toNat_false]
    omega

theorem sbc_spec (a b : UInt8) (c : Bool) :
    (sbc a b c).1.toNat + 256 * (sbc a b c).2.toNat + b.toNat = a.toNat + 255 + c.toNat := by
  have ha := a.toNat_lt
  have hb := b.toNat_lt
  have hc := c.toNat_le
  simp only [sbc, UInt8.toNat_ofNat', Nat.reducePow]
  by_cases h : 256 ≤ a.toNat + 255 + c.toNat - b.toNat
  · rw [decide_eq_true h, Bool.toNat_true]
    omega
  · rw [decide_eq_false h, Bool.toNat_false]
    omega

/-! ## Numbers, low byte first -/

/-- Add two numbers of one length. -/
def addLe : List UInt8 → List UInt8 → Bool → List UInt8 × Bool
  | a :: as, b :: bs, c =>
    let r := adc a b c
    let rest := addLe as bs r.2
    (r.1 :: rest.1, rest.2)
  | _, _, c => ([], c)

/-- Subtract a number of the same length. -/
def subLe : List UInt8 → List UInt8 → Bool → List UInt8 × Bool
  | a :: as, b :: bs, c =>
    let r := sbc a b c
    let rest := subLe as bs r.2
    (r.1 :: rest.1, rest.2)
  | _, _, c => ([], c)

/-- Bring a carry in: up to the first byte that does not wrap. -/
def carryLe : List UInt8 → Bool → List UInt8 × Bool
  | b :: bs, true =>
    let r := adc b 0 true
    let rest := carryLe bs r.2
    (r.1 :: rest.1, rest.2)
  | bs, c => (bs, c)

theorem leNat_addLe {as bs : List UInt8} (hlen : as.length = bs.length) (c : Bool) :
    leNat (addLe as bs c).1 + 256 ^ as.length * (addLe as bs c).2.toNat =
      leNat as + leNat bs + c.toNat := by
  induction as generalizing bs c with
  | nil =>
    obtain rfl : bs = [] := List.eq_nil_of_length_eq_zero hlen.symm
    simp [addLe, leNat]
  | cons a as ih =>
    cases bs with
    | nil => simp at hlen
    | cons b bs =>
      have hbyte := adc_spec a b c
      have hrest := ih (Nat.succ.inj hlen) (adc a b c).2
      rw [addLe, leNat, leNat, leNat, List.length_cons, Nat.pow_succ]
      dsimp only
      linarith

theorem length_addLe {as bs : List UInt8} (hlen : as.length = bs.length) (c : Bool) :
    (addLe as bs c).1.length = as.length := by
  induction as generalizing bs c with
  | nil => rfl
  | cons a as ih =>
    cases bs with
    | nil => simp at hlen
    | cons b bs => simp [addLe, ih (Nat.succ.inj hlen)]

theorem leNat_subLe {as bs : List UInt8} (hlen : as.length = bs.length) (c : Bool) :
    leNat (subLe as bs c).1 + 256 ^ as.length * (subLe as bs c).2.toNat + leNat bs + 1 =
      leNat as + 256 ^ as.length + c.toNat := by
  induction as generalizing bs c with
  | nil =>
    obtain rfl : bs = [] := List.eq_nil_of_length_eq_zero hlen.symm
    simp [subLe, leNat]
    omega
  | cons a as ih =>
    cases bs with
    | nil => simp at hlen
    | cons b bs =>
      have hbyte := sbc_spec a b c
      have hrest := ih (Nat.succ.inj hlen) (sbc a b c).2
      rw [subLe, leNat, leNat, leNat, List.length_cons, Nat.pow_succ]
      dsimp only
      linarith

theorem length_subLe {as bs : List UInt8} (hlen : as.length = bs.length) (c : Bool) :
    (subLe as bs c).1.length = as.length := by
  induction as generalizing bs c with
  | nil => rfl
  | cons a as ih =>
    cases bs with
    | nil => simp at hlen
    | cons b bs => simp [subLe, ih (Nat.succ.inj hlen)]

theorem leNat_carryLe (bs : List UInt8) (c : Bool) :
    leNat (carryLe bs c).1 + 256 ^ bs.length * (carryLe bs c).2.toNat = leNat bs + c.toNat := by
  induction bs generalizing c with
  | nil => cases c <;> simp [carryLe, leNat]
  | cons b bs ih =>
    cases c with
    | false => simp [carryLe]
    | true =>
      have hbyte := adc_spec b 0 true
      have hrest := ih (adc b 0 true).2
      rw [UInt8.toNat_zero] at hbyte
      rw [carryLe, leNat, leNat, List.length_cons, Nat.pow_succ]
      dsimp only
      linarith

theorem length_carryLe (bs : List UInt8) (c : Bool) : (carryLe bs c).1.length = bs.length := by
  induction bs generalizing c with
  | nil => cases c <;> rfl
  | cons b bs ih =>
    cases c with
    | false => rfl
    | true => simp [carryLe, ih]

/-- An increment: what stays in the bytes, and when a carry leaves them. -/
theorem carryLe_inc (bs : List UInt8) :
    leNat (carryLe bs true).1 = (leNat bs + 1) % 256 ^ bs.length ∧
      ((carryLe bs true).2 = true ↔ leNat bs + 1 = 256 ^ bs.length) := by
  have hsum := leNat_carryLe bs true
  have hlt := leNat_lt (carryLe bs true).1
  have hbs := leNat_lt bs
  rw [length_carryLe] at hlt
  rw [Bool.toNat_true] at hsum
  cases h : (carryLe bs true).2 with
  | false =>
    rw [h, Bool.toNat_false, Nat.mul_zero, Nat.add_zero] at hsum
    rw [← hsum, Nat.mod_eq_of_lt hlt]
    exact ⟨rfl, by simp [hlt.ne]⟩
  | true =>
    rw [h, Bool.toNat_true, Nat.mul_one] at hsum
    have hfull : leNat bs + 1 = 256 ^ bs.length := by omega
    rw [hfull, Nat.mod_self]
    exact ⟨by omega, by simp⟩

/-! ## Two cells -/

/-- The low byte of a number. -/
def lo (x : Nat) : UInt8 := UInt8.ofNat x

/-- The second byte of a number. -/
def hi (x : Nat) : UInt8 := UInt8.ofNat (x / 256)

/-- A 16-bit number in two cells. -/
structure Cell16 where
  lo : UInt8
  hi : UInt8
deriving DecidableEq

namespace Cell16

def toNat (c : Cell16) : Nat := c.lo.toNat + 256 * c.hi.toNat

def ofNat (x : Nat) : Cell16 := ⟨Alu.lo x, Alu.hi x⟩

/-- `inc`, and again for the high cell when the low one wraps. -/
def inc (c : Cell16) : Cell16 := if c.lo + 1 = 0 then ⟨0, c.hi + 1⟩ else { c with lo := c.lo + 1 }

/-- `dec`, after a borrow from the high cell when the low one is zero. -/
def dec (c : Cell16) : Cell16 := if c.lo = 0 then ⟨c.lo - 1, c.hi - 1⟩ else { c with lo := c.lo - 1 }

/-- The sum, without the last carry. -/
def add (a b : Cell16) : Cell16 :=
  let low := adc a.lo b.lo false
  ⟨low.1, (adc a.hi b.hi low.2).1⟩

/-- The difference, without the last borrow. -/
def sub (a b : Cell16) : Cell16 :=
  let low := sbc a.lo b.lo true
  ⟨low.1, (sbc a.hi b.hi low.2).1⟩

theorem toNat_lt (c : Cell16) : c.toNat < 65536 := by
  have hlo := c.lo.toNat_lt
  have hhi := c.hi.toNat_lt
  unfold toNat
  omega

theorem toNat_inj {a b : Cell16} : a.toNat = b.toNat ↔ a = b := by
  constructor
  · intro h
    have ha := a.lo.toNat_lt
    have hb := b.lo.toNat_lt
    unfold toNat at h
    obtain ⟨alo, ahi⟩ := a
    obtain ⟨blo, bhi⟩ := b
    rw [mk.injEq, ← UInt8.toNat_inj, ← UInt8.toNat_inj]
    dsimp only at h ha hb
    omega
  · rintro rfl
    rfl

theorem toNat_ofNat (x : Nat) : (ofNat x).toNat = x % 65536 := by
  simp only [toNat, ofNat, Alu.lo, Alu.hi, UInt8.toNat_ofNat']
  omega

theorem toNat_inc (c : Cell16) : c.inc.toNat = (c.toNat + 1) % 65536 := by
  have hlo := c.lo.toNat_lt
  have hhi := c.hi.toNat_lt
  unfold inc
  by_cases h : c.lo + 1 = 0
  · have hfull := (byte_succ_eq_zero_iff c.lo).mp h
    rw [if_pos h]
    simp only [toNat, UInt8.toNat_add, UInt8.reduceToNat]
    omega
  · have hnot := mt (byte_succ_eq_zero_iff c.lo).mpr h
    rw [if_neg h]
    simp only [toNat, UInt8.toNat_add, UInt8.reduceToNat]
    omega

theorem toNat_dec {c : Cell16} (h : 0 < c.toNat) : c.dec.toNat + 1 = c.toNat := by
  have hlo := c.lo.toNat_lt
  have hhi := c.hi.toNat_lt
  unfold dec
  by_cases hzero : c.lo = 0
  · rw [if_pos hzero]
    simp only [toNat, hzero, UInt8.toNat_sub, UInt8.reduceToNat] at h ⊢
    omega
  · have hne : c.lo.toNat ≠ 0 := fun hz => hzero (UInt8.toNat_inj.mp hz)
    rw [if_neg hzero]
    simp only [toNat, UInt8.toNat_sub, UInt8.reduceToNat]
    omega

theorem toNat_add (a b : Cell16) : (a.add b).toNat = (a.toNat + b.toNat) % 65536 := by
  have hlow := adc_spec a.lo b.lo false
  have hhigh := adc_spec a.hi b.hi (adc a.lo b.lo false).2
  have hlt := toNat_lt (a.add b)
  have hcarry := (adc a.hi b.hi (adc a.lo b.lo false).2).2.toNat_le
  simp only [add, toNat, Bool.toNat_false] at hlow hlt ⊢
  omega

theorem toNat_sub (a b : Cell16) : (a.sub b).toNat = (a.toNat + 65536 - b.toNat) % 65536 := by
  have hlow := sbc_spec a.lo b.lo true
  have hhigh := sbc_spec a.hi b.hi (sbc a.lo b.lo true).2
  have hlt := toNat_lt (a.sub b)
  have hcarry := (sbc a.hi b.hi (sbc a.lo b.lo true).2).2.toNat_le
  simp only [sub, toNat, Bool.toNat_true] at hlow hlt ⊢
  omega

/-- `ora` of the two cells tests the number for zero. -/
theorem or_eq_zero_iff (c : Cell16) : c.lo ||| c.hi = 0 ↔ c.toNat = 0 := by
  rw [← UInt8.toNat_inj, UInt8.toNat_or, UInt8.toNat_zero, Nat.or_eq_zero_iff, toNat]
  omega

/-- A comparison with a constant, the high cell first. -/
theorem lt_iff {c : Cell16} {x : Nat} (hx : x < 65536) :
    (c.hi < Alu.hi x ∨ c.hi = Alu.hi x ∧ c.lo < Alu.lo x) ↔ c.toNat < x := by
  have hlo := c.lo.toNat_lt
  have hhi := c.hi.toNat_lt
  rw [UInt8.lt_iff_toNat_lt, UInt8.lt_iff_toNat_lt, ← UInt8.toNat_inj]
  simp only [Alu.lo, Alu.hi, UInt8.toNat_ofNat', toNat]
  omega

end Cell16

end Alu
