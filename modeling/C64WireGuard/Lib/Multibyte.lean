import C64WireGuard.Lib.Bytes

/-!
# Multi-byte numbers on a byte machine

An 8-bit processor works on a wide number one byte at a time: it compares from the top byte down,
and it adds and subtracts from the low byte up with a carry. This module gives those loops on
little-endian lists and ties each to the number the bytes stand for.
-/

/-- The number a little-endian list of bytes stands for. -/
def leNat : List UInt8 → Nat
  | [] => 0
  | b :: bs => b.toNat + 256 * leNat bs

/-- The number a big-endian list of bytes stands for. -/
def beNat (bs : List UInt8) : Nat := leNat bs.reverse

theorem leNat_lt (bs : List UInt8) : leNat bs < 256 ^ bs.length := by
  induction bs with
  | nil => simp [leNat]
  | cons b bs ih =>
      have hb := b.toNat_lt
      simp only [leNat, List.length_cons, pow_succ]
      omega

theorem leNat_append (as bs : List UInt8) :
    leNat (as ++ bs) = leNat as + 256 ^ as.length * leNat bs := by
  induction as with
  | nil => simp [leNat]
  | cons a as ih =>
      simp only [List.cons_append, leNat, ih, List.length_cons, pow_succ]
      ring

/-- Lists of one length are told apart by their numbers. -/
theorem leNat_inj {as bs : List UInt8} (hlen : as.length = bs.length)
    (h : leNat as = leNat bs) : as = bs := by
  induction as generalizing bs with
  | nil => simpa using hlen.symm
  | cons a as ih =>
      cases bs with
      | nil => simp at hlen
      | cons b bs =>
          simp only [leNat] at h
          have ha := a.toNat_lt
          have hb := b.toNat_lt
          have hab : a = b := UInt8.toNat_inj.mp (by omega)
          have htl : as = bs := ih (by simpa using hlen) (by omega)
          rw [hab, htl]

/-! ## Comparison, top byte first -/

/-- The comparison loop on little-endian bytes: the top byte decides first. -/
def cmpMsb : List UInt8 → List UInt8 → Ordering
  | a :: as, b :: bs =>
      match cmpMsb as bs with
      | .eq => if a < b then .lt else if a = b then .eq else .gt
      | o => o
  | _, _ => .eq

theorem cmpMsb_spec {as bs : List UInt8} (hlen : as.length = bs.length) :
    cmpMsb as bs = compare (leNat as) (leNat bs) := by
  induction as generalizing bs with
  | nil =>
      cases bs with
      | nil => simp [cmpMsb]
      | cons b bs => simp at hlen
  | cons a as ih =>
      cases bs with
      | nil => simp at hlen
      | cons b bs =>
          have hlen' : as.length = bs.length := by simpa using hlen
          have ha := a.toNat_lt
          have hb := b.toNat_lt
          simp only [cmpMsb, ih hlen', leNat]
          rcases Nat.lt_trichotomy (leNat as) (leNat bs) with hlt | heq | hgt
          · rw [Nat.compare_eq_lt.mpr hlt, Nat.compare_eq_lt.mpr (by omega)]
          · rw [Nat.compare_eq_eq.mpr heq, heq]
            rcases Nat.lt_trichotomy a.toNat b.toNat with h | h | h
            · rw [if_pos (UInt8.lt_iff_toNat_lt.mpr h), Nat.compare_eq_lt.mpr (by omega)]
            · rw [if_neg (by rw [UInt8.lt_iff_toNat_lt]; omega), if_pos (UInt8.toNat_inj.mp h),
                Nat.compare_eq_eq.mpr (by omega)]
            · have hne : ¬ a = b := by
                rintro rfl
                exact Nat.lt_irrefl _ h
              rw [if_neg (by rw [UInt8.lt_iff_toNat_lt]; omega), if_neg hne,
                Nat.compare_eq_gt.mpr (by omega)]
          · rw [Nat.compare_eq_gt.mpr hgt, Nat.compare_eq_gt.mpr (by omega)]

/-! ## Increment, low byte first -/

/-- The ripple increment: add one to the low byte and stop at the first byte that does not wrap. -/
def incLe : List UInt8 → List UInt8
  | [] => []
  | b :: bs => if b + 1 = 0 then 0 :: incLe bs else (b + 1) :: bs

@[simp] theorem length_incLe (bs : List UInt8) : (incLe bs).length = bs.length := by
  induction bs with
  | nil => rfl
  | cons b bs ih =>
      simp only [incLe]
      split <;> simp [ih]

theorem byte_succ_eq_zero_iff (b : UInt8) : b + 1 = 0 ↔ b.toNat = 255 := by
  rw [← UInt8.toNat_inj, UInt8.toNat_add]
  have hb := b.toNat_lt
  simp only [UInt8.reduceToNat]
  omega

theorem leNat_incLe (bs : List UInt8) :
    leNat (incLe bs) = (leNat bs + 1) % 256 ^ bs.length := by
  induction bs with
  | nil => simp [leNat, incLe]
  | cons b bs ih =>
      have hlt := leNat_lt bs
      have hb := b.toNat_lt
      simp only [incLe, List.length_cons, pow_succ]
      by_cases h : b + 1 = 0
      · rw [if_pos h]
        have hb255 := (byte_succ_eq_zero_iff b).mp h
        simp only [leNat, ih, hb255, UInt8.reduceToNat]
        have : 255 + 256 * leNat bs + 1 = 256 * (leNat bs + 1) := by ring
        rw [this, Nat.mul_comm (256 ^ bs.length), Nat.mul_mod_mul_left]
        omega
      · rw [if_neg h]
        have hne : b.toNat ≠ 255 := fun hc => h ((byte_succ_eq_zero_iff b).mpr hc)
        have hval : (b + 1).toNat = b.toNat + 1 := by
          rw [UInt8.toNat_add]
          simp only [UInt8.reduceToNat]
          omega
        simp only [leNat, hval]
        rw [Nat.mod_eq_of_lt (by omega)]
        omega

/-! ## Addition of a byte, low byte first -/

/-- Add a byte to the low end and carry into every byte above. -/
def adcLe : List UInt8 → UInt8 → List UInt8
  | [], _ => []
  | b :: bs, v => (b + v) :: adcLe bs (if 256 ≤ b.toNat + v.toNat then 1 else 0)

@[simp] theorem length_adcLe (bs : List UInt8) (v : UInt8) : (adcLe bs v).length = bs.length := by
  induction bs generalizing v with
  | nil => rfl
  | cons b bs ih => simp [adcLe, ih]

theorem leNat_adcLe (bs : List UInt8) (v : UInt8) (h : bs ≠ []) :
    leNat (adcLe bs v) = (leNat bs + v.toNat) % 256 ^ bs.length := by
  induction bs generalizing v with
  | nil => exact absurd rfl h
  | cons b bs ih =>
      have hb := b.toNat_lt
      have hv := v.toNat_lt
      simp only [adcLe, leNat, List.length_cons, UInt8.toNat_add, Nat.reducePow]
      by_cases hbs : bs = []
      · subst hbs
        simp only [adcLe, leNat, List.length_nil]
        omega
      · rw [ih _ hbs, pow_succ, Nat.mul_comm (256 ^ bs.length) 256, Nat.mod_mul]
        by_cases hc : 256 ≤ b.toNat + v.toNat
        · rw [if_pos hc]
          have hdiv : (b.toNat + 256 * leNat bs + v.toNat) / 256 = leNat bs + 1 := by omega
          rw [hdiv]
          simp only [UInt8.reduceToNat]
          omega
        · rw [if_neg hc]
          have hdiv : (b.toNat + 256 * leNat bs + v.toNat) / 256 = leNat bs := by omega
          rw [hdiv]
          simp only [UInt8.reduceToNat, Nat.add_zero]
          omega

/-! ## Sixteen-bit differences -/

/-- Subtract with borrow, low byte then high byte, wrapping at 16 bits. -/
def sub16 (aLo aHi bLo bHi : UInt8) : UInt8 × UInt8 :=
  (aLo - bLo, aHi - bHi - if aLo < bLo then 1 else 0)

theorem sub16_spec (aLo aHi bLo bHi : UInt8) :
    (sub16 aLo aHi bLo bHi).1.toNat + 256 * (sub16 aLo aHi bLo bHi).2.toNat =
      (aLo.toNat + 256 * aHi.toNat + 65536 - (bLo.toNat + 256 * bHi.toNat)) % 65536 := by
  have h₁ := aLo.toNat_lt
  have h₂ := aHi.toNat_lt
  have h₃ := bLo.toNat_lt
  have h₄ := bHi.toNat_lt
  by_cases h : aLo < bLo
  · simp only [sub16, if_pos h, UInt8.toNat_sub, UInt8.reduceToNat]
    rw [UInt8.lt_iff_toNat_lt] at h
    omega
  · simp only [sub16, if_neg h, UInt8.toNat_sub, UInt8.reduceToNat]
    rw [UInt8.lt_iff_toNat_lt] at h
    omega

namespace Bytes

variable {n : Nat}

/-! ## Buffers as numbers -/

/-- The little-endian value of a buffer. -/
def le (b : Bytes n) : Nat := leNat b.toList

/-- The big-endian value of a buffer. -/
def be (b : Bytes n) : Nat := beNat b.toList

/-- The low `n` bytes of a number, most significant first. -/
def ofBe (n x : Nat) : Bytes n := tabulate n fun i => UInt8.ofNat (x / 256 ^ (n - 1 - i))

theorem le_lt (b : Bytes n) : le b < 256 ^ n := by
  have := leNat_lt b.toList
  simpa [le] using this

theorem le_inj {a b : Bytes n} : le a = le b ↔ a = b := by
  constructor
  · intro h
    exact toList_inj.mp (leNat_inj (by simp) h)
  · rintro rfl
    rfl

@[simp] theorem le_zero : le (zero n) = 0 := by
  have h : ∀ k, leNat (List.replicate k (0 : UInt8)) = 0 := by
    intro k
    induction k with
    | zero => rfl
    | succ k ih => simp [List.replicate_succ, leNat, ih]
  rw [le, toList_zero, h]

/-- A buffer's value splits at any offset. -/
theorem le_eq_add (b : Bytes n) {m k : Nat} (h : m + k = n) :
    le b = le (slice b 0 m) + 256 ^ m * le (slice b m k) := by
  subst h
  have hsplit := toList_slice_add b (show 0 + (m + k) ≤ m + k by omega)
  rw [slice_self, Nat.zero_add] at hsplit
  rw [le, hsplit, leNat_append]
  simp [le]

/-- The two low bytes of a buffer. -/
theorem le_slice_two (b : Bytes n) :
    le (slice b 0 2) = (byte b 0).toNat + 256 * (byte b 1).toNat := by
  have hl : (slice b 0 2).toList = [byte b 0, byte b 1] := by
    apply List.ext_getElem
    · simp
    · intro i h₁ h₂
      have hi : i < 2 := by simpa using h₁
      have hb : byte (slice b 0 2) i = byte b i := by simp [hi]
      rw [byte_of_lt _ hi] at hb
      interval_cases i <;> simpa using hb
  rw [le, hl]
  simp [leNat]

theorem le_one (b : Bytes 1) : le b = (byte b 0).toNat := by
  have hl : b.toList = [byte b 0] := by
    apply List.ext_getElem
    · simp
    · intro i h₁ h₂
      have hi : i < 1 := by simpa using h₁
      interval_cases i
      simp [byte]
  rw [le, hl]
  simp [leNat]

/-- The bytes of a number, low byte first. -/
theorem le_digits (x k : Nat) :
    le (tabulate k fun i => UInt8.ofNat (x / 256 ^ i)) = x % 256 ^ k := by
  induction k with
  | zero =>
      have h := le_lt (tabulate 0 fun i => UInt8.ofNat (x / 256 ^ i))
      rw [Nat.pow_zero, Nat.mod_one]
      omega
  | succ k ih =>
      have hlow : slice (tabulate (k + 1) fun i => UInt8.ofNat (x / 256 ^ i)) 0 k =
          tabulate k fun i => UInt8.ofNat (x / 256 ^ i) := by
        apply ext_byte
        intro i hi
        have hi' : i < k + 1 := by omega
        simp [hi, hi']
      have htop : le (slice (tabulate (k + 1) fun i => UInt8.ofNat (x / 256 ^ i)) k 1) =
          x / 256 ^ k % 256 := by
        rw [le_one]
        simp
      rw [le_eq_add _ (m := k) (k := 1) rfl, hlow, htop, ih, Nat.mod_pow_succ]

/-- Big-endian is little-endian of the bytes in reverse. -/
theorem be_eq_le (b : Bytes n) : be b = le (tabulate n fun i => byte b (n - 1 - i)) := by
  have hrev : b.toList.reverse = (tabulate n fun i => byte b (n - 1 - i)).toList := by
    apply List.ext_getElem
    · simp
    · intro i h₁ h₂
      have hi : i < n := by simpa using h₁
      have hb := byte_tabulate (n := n) (fun i => byte b (n - 1 - i)) i
      rw [if_pos hi, byte_of_lt _ hi, byte_of_lt b (by omega)] at hb
      simpa using hb.symm
  rw [be, beNat, hrev, le]

theorem be_lt (b : Bytes n) : be b < 256 ^ n := by
  rw [be_eq_le]
  exact le_lt _

/-- A buffer's big-endian value splits at any offset. -/
theorem be_eq_add (b : Bytes n) {m k : Nat} (h : m + k = n) :
    be b = be (slice b 0 m) * 256 ^ k + be (slice b m k) := by
  subst h
  have hsplit := toList_slice_add b (show 0 + (m + k) ≤ m + k by omega)
  rw [slice_self, Nat.zero_add] at hsplit
  rw [be, beNat, hsplit, List.reverse_append, leNat_append]
  simp only [be, beNat, List.length_reverse, Vector.length_toList]
  ring

/-- The bytes of a number, top byte first. -/
theorem be_ofBe (k x : Nat) : be (ofBe k x) = x % 256 ^ k := by
  rw [be_eq_le, ← le_digits]
  congr 1
  apply ext_byte
  intro i hi
  have hi' : k - 1 - i < k := by omega
  have hsub : k - 1 - (k - 1 - i) = i := by omega
  simp only [byte_tabulate, if_pos hi, ofBe, if_pos hi', hsub]

/-- The ripple increment on a buffer. -/
def inc (b : Bytes n) : Bytes n := ofList n (incLe b.toList)

theorem le_inc (b : Bytes n) : le (inc b) = (le b + 1) % 256 ^ n := by
  rw [le, inc, toList_ofList (by simp), leNat_incLe]
  simp [le]

/-- The comparison of two buffers, top byte first. -/
def cmp (a b : Bytes n) : Ordering := cmpMsb a.toList b.toList

theorem cmp_spec (a b : Bytes n) : cmp a b = compare (le a) (le b) :=
  cmpMsb_spec (by simp)

end Bytes
