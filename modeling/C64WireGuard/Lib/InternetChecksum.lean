import Mathlib.Algebra.BigOperators.Group.List.Basic
import Mathlib.Algebra.GroupWithZero.Nat

/-!
# The Internet checksum

RFC 1071: the 16-bit words of a message are added with the carry brought back in at the low end, and
the message carries the complement of the sum, so that its receiver's sum is all ones
(`verifies_complement`). The sum of byte-swapped words is the byte-swapped sum, so a machine may add
the words in either byte order (`verifies_iff_wordsLe`).
-/

namespace InternetChecksum

/-! ## One's complement sums -/

/-- Addition of 16-bit words, the carry brought back in at the low end. -/
def onesAdd (a b : Nat) : Nat := if a + b < 65536 then a + b else a + b - 65535

/-- The sum of 16-bit words. -/
def onesSum (ws : List Nat) : Nat := ws.foldl onesAdd 0

theorem onesAdd_lt {a b : Nat} (ha : a < 65536) (hb : b < 65536) : onesAdd a b < 65536 := by
  unfold onesAdd
  split <;> omega

theorem onesAdd_mod (a b : Nat) : onesAdd a b % 65535 = (a + b) % 65535 := by
  unfold onesAdd
  split
  · rfl
  · omega

theorem onesAdd_eq_zero {a b : Nat} : onesAdd a b = 0 ↔ a + b = 0 := by
  unfold onesAdd
  split
  · rfl
  · omega

/-- A sum is a word, it is the plain sum modulo 65535, and it is zero only when there is nothing to
add. -/
theorem foldl_onesAdd {ws : List Nat} (h : ∀ w ∈ ws, w < 65536) {s : Nat} (hs : s < 65536) :
    ws.foldl onesAdd s < 65536 ∧ ws.foldl onesAdd s % 65535 = (s + ws.sum) % 65535 ∧
      (ws.foldl onesAdd s = 0 ↔ s + ws.sum = 0) := by
  induction ws generalizing s with
  | nil => exact ⟨hs, rfl, Iff.rfl⟩
  | cons w ws ih =>
      have hw : w < 65536 := h w List.mem_cons_self
      obtain ⟨hlt, hmod, hzero⟩ := ih (fun v hv => h v (List.mem_cons_of_mem _ hv)) (onesAdd_lt hs hw)
      have hadd := onesAdd_mod s w
      have hadd₀ := onesAdd_eq_zero (a := s) (b := w)
      rw [List.foldl_cons, List.sum_cons]
      refine ⟨hlt, ?_, ?_⟩
      · omega
      · rw [hzero]
        omega

/-- The sum is all ones when the plain sum is a positive multiple of 65535. -/
theorem onesSum_eq_ones_iff {ws : List Nat} (h : ∀ w ∈ ws, w < 65536) :
    onesSum ws = 65535 ↔ ws.sum % 65535 = 0 ∧ ws.sum ≠ 0 := by
  obtain ⟨hlt, hmod, hzero⟩ := foldl_onesAdd h (show 0 < 65536 by decide)
  rw [Nat.zero_add] at hmod hzero
  change onesSum ws < 65536 at hlt
  change onesSum ws % 65535 = _ at hmod
  change onesSum ws = 0 ↔ _ at hzero
  omega

/-! ## Words of a message -/

/-- The words of a message in network order, an odd last byte padded with zero. -/
def wordsBe : List UInt8 → List Nat
  | a :: b :: bs => (256 * a.toNat + b.toNat) :: wordsBe bs
  | [a] => [256 * a.toNat]
  | [] => []

/-- The words with their bytes swapped. -/
def wordsLe : List UInt8 → List Nat
  | a :: b :: bs => (a.toNat + 256 * b.toNat) :: wordsLe bs
  | [a] => [a.toNat]
  | [] => []

/-- A receiver's sum over the message, checksum included, is all ones. -/
def Verifies (bs : List UInt8) : Prop := onesSum (wordsBe bs) = 65535

theorem wordsBe_lt (bs : List UInt8) : ∀ w ∈ wordsBe bs, w < 65536 := by
  induction bs using wordsBe.induct with
  | case1 a b bs ih =>
      have ha := a.toNat_lt
      have hb := b.toNat_lt
      rw [wordsBe, List.forall_mem_cons]
      exact ⟨by omega, ih⟩
  | case2 a =>
      have ha := a.toNat_lt
      rw [wordsBe, List.forall_mem_singleton]
      omega
  | case3 => simp [wordsBe]

theorem wordsLe_lt (bs : List UInt8) : ∀ w ∈ wordsLe bs, w < 65536 := by
  induction bs using wordsLe.induct with
  | case1 a b bs ih =>
      have ha := a.toNat_lt
      have hb := b.toNat_lt
      rw [wordsLe, List.forall_mem_cons]
      exact ⟨by omega, ih⟩
  | case2 a =>
      have ha := a.toNat_lt
      rw [wordsLe, List.forall_mem_singleton]
      omega
  | case3 => simp [wordsLe]

/-- Swapping the bytes of every word multiplies the sum by 256 modulo 65535. -/
theorem sum_wordsBe (bs : List UInt8) :
    (wordsBe bs).sum % 65535 = 256 * (wordsLe bs).sum % 65535 ∧
      ((wordsBe bs).sum = 0 ↔ (wordsLe bs).sum = 0) := by
  induction bs using wordsBe.induct with
  | case1 a b bs ih =>
      obtain ⟨hmod, hzero⟩ := ih
      rw [wordsBe, wordsLe, List.sum_cons, List.sum_cons]
      constructor <;> omega
  | case2 a =>
      rw [wordsBe, wordsLe, List.sum_singleton, List.sum_singleton]
      constructor <;> omega
  | case3 => simp [wordsBe, wordsLe]

/-- A receiver may add the words in either byte order. -/
theorem verifies_iff_wordsLe (bs : List UInt8) : Verifies bs ↔ onesSum (wordsLe bs) = 65535 := by
  obtain ⟨hmod, hzero⟩ := sum_wordsBe bs
  unfold Verifies
  rw [onesSum_eq_ones_iff (wordsBe_lt bs), onesSum_eq_ones_iff (wordsLe_lt bs)]
  omega

/-- The sum of the swapped words is the swapped sum. -/
theorem onesSum_wordsBe (bs : List UInt8) :
    onesSum (wordsBe bs) = 256 * (onesSum (wordsLe bs) % 256) + onesSum (wordsLe bs) / 256 := by
  obtain ⟨hlt, hmod, hzero⟩ := foldl_onesAdd (wordsBe_lt bs) (show 0 < 65536 by decide)
  obtain ⟨hlt', hmod', hzero'⟩ := foldl_onesAdd (wordsLe_lt bs) (show 0 < 65536 by decide)
  obtain ⟨hswap, hswap₀⟩ := sum_wordsBe bs
  change onesSum (wordsBe bs) < 65536 at hlt
  change onesSum (wordsBe bs) % 65535 = _ at hmod
  change onesSum (wordsBe bs) = 0 ↔ _ at hzero
  change onesSum (wordsLe bs) < 65536 at hlt'
  change onesSum (wordsLe bs) % 65535 = _ at hmod'
  change onesSum (wordsLe bs) = 0 ↔ _ at hzero'
  omega

theorem wordsLe_append {as : List UInt8} (heven : as.length % 2 = 0) (bs : List UInt8) :
    wordsLe (as ++ bs) = wordsLe as ++ wordsLe bs := by
  induction as using wordsLe.induct with
  | case1 a b as ih =>
      have heven' : as.length % 2 = 0 := by
        simp only [List.length_cons] at heven
        omega
      rw [List.cons_append, List.cons_append, wordsLe, wordsLe, ih heven', List.cons_append]
  | case2 a => simp at heven
  | case3 => rfl

/-! ## The checksum -/

/-- **A message that carries the complement of the sum it had with a zero checksum verifies.** The
checksum is at an even offset, its low byte first. -/
theorem verifies_complement {as bs : List UInt8} (heven : as.length % 2 = 0) {lo hi : UInt8}
    (hcompl : lo.toNat + 256 * hi.toNat = 65535 - onesSum (wordsLe (as ++ 0 :: 0 :: bs))) :
    Verifies (as ++ lo :: hi :: bs) := by
  obtain ⟨hlt, hmod, hzero⟩ := foldl_onesAdd (wordsLe_lt (as ++ 0 :: 0 :: bs))
    (show 0 < 65536 by decide)
  change onesSum (wordsLe (as ++ 0 :: 0 :: bs)) < 65536 at hlt
  change onesSum (wordsLe (as ++ 0 :: 0 :: bs)) % 65535 = _ at hmod
  change onesSum (wordsLe (as ++ 0 :: 0 :: bs)) = 0 ↔ _ at hzero
  have hblank : (wordsLe (as ++ 0 :: 0 :: bs)).sum = (wordsLe as).sum + (wordsLe bs).sum := by
    rw [wordsLe_append heven, wordsLe, List.sum_append, List.sum_cons]
    simp
  have hfull : (wordsLe (as ++ lo :: hi :: bs)).sum =
      (wordsLe as).sum + (lo.toNat + 256 * hi.toNat) + (wordsLe bs).sum := by
    rw [wordsLe_append heven, wordsLe, List.sum_append, List.sum_cons]
    omega
  rw [verifies_iff_wordsLe, onesSum_eq_ones_iff (wordsLe_lt _), hfull, hcompl]
  omega

end InternetChecksum
