import Mathlib.Logic.Function.Iterate
import Mathlib.Data.List.Basic

/-!
# Registers that feed back

A register takes in one word after the other and shows something of itself after each. When what it
shows determines the word it has just taken, a whole run loses nothing: for every start the runs of
words and the runs of outputs of one length go together one by one.

The second part is about one such register: `stir k` turns the bits by one place and adds `k` to them.
It is affine, so two registers that take in the same words keep their difference but for the turns;
and after `2 * w` steps with one and the same word a register of `w` bits is back where it was.
-/

namespace C64WireGuard

variable {γ ι ο : Type}

/-! ## Outputs -/

/-- What the register shows after each word. -/
def outputs (next : γ → ι → γ) (out : γ → ο) : γ → List ι → List ο
  | _, [] => []
  | x, i :: is => out (next x i) :: outputs next out (next x i) is

variable {next : γ → ι → γ} {out : γ → ο}

@[simp] theorem length_outputs (x : γ) (is : List ι) : (outputs next out x is).length = is.length := by
  induction is generalizing x with
  | nil => rfl
  | cons i is ih => simp [outputs, ih]

theorem outputs_injective (h : ∀ x, Function.Injective fun i => out (next x i)) (x : γ) :
    Function.Injective (outputs next out x) := by
  intro is js heq
  induction is generalizing x js with
  | nil =>
    have hlen := congrArg List.length heq
    rw [length_outputs, length_outputs] at hlen
    exact (List.eq_nil_of_length_eq_zero hlen.symm).symm
  | cons i is ih =>
    cases js with
    | nil => cases heq
    | cons j js =>
      obtain ⟨hhead, htail⟩ := List.cons.inj heq
      obtain rfl := h x hhead
      rw [ih (next x i) htail]

theorem outputs_surjective (h : ∀ x, Function.Surjective fun i => out (next x i)) (x : γ) :
    Function.Surjective (outputs next out x) := by
  intro os
  induction os generalizing x with
  | nil => exact ⟨[], rfl⟩
  | cons o os ih =>
    obtain ⟨i, rfl⟩ := h x o
    obtain ⟨is, rfl⟩ := ih (next x i)
    exact ⟨i :: is, rfl⟩

theorem getElem?_outputs (x : γ) (is : List ι) (n : Nat) (hn : n < is.length) :
    (outputs next out x is)[n]? = some (out ((is.take (n + 1)).foldl next x)) := by
  induction is generalizing x n with
  | nil => simp at hn
  | cons i is ih =>
    cases n with
    | zero => simp [outputs]
    | succ n => simpa [outputs] using ih (next x i) n (by simpa using hn)

/-- One and the same word. -/
theorem foldl_replicate (x : γ) (i : ι) (n : Nat) :
    (List.replicate n i).foldl next x = (fun x => next x i)^[n] x := by
  induction n generalizing x with
  | zero => rfl
  | succ n ih => rw [List.replicate_succ, List.foldl_cons, ih, Function.iterate_succ_apply]

/-! ## A register that turns -/

variable {w : Nat}

/-- One place to the left. -/
def turn (r : BitVec w) : BitVec w := r.rotateLeft 1

/-- A turn, and a word. -/
def stir (r k : BitVec w) : BitVec w := turn r ^^^ k

theorem turn_xor (r s : BitVec w) : turn (r ^^^ s) = turn r ^^^ turn s := by
  ext i hi
  simp only [turn, BitVec.getElem_rotateLeft, BitVec.getElem_xor]
  split <;> rfl

theorem turn_zero : turn 0#w = 0#w := by
  ext i hi
  simp [turn]

theorem getLsbD_turn (r : BitVec w) {i : Nat} (hi : i < w) :
    (turn r).getLsbD i = r.getLsbD ((i + (w - 1)) % w) := by
  rw [turn, BitVec.getLsbD_rotateLeft]
  cases i with
  | zero =>
    rw [Nat.zero_add, Nat.mod_eq_of_lt (by omega : w - 1 < w)]
    rcases Nat.lt_or_eq_of_le (Nat.succ_le_of_lt hi) with hw | rfl
    · simp [Nat.mod_eq_of_lt hw]
    · simp
  | succ i =>
    have hback : i + 1 + (w - 1) = i + w := by omega
    rw [hback, Nat.add_mod_right, Nat.mod_eq_of_lt (by omega : i < w),
      Nat.mod_eq_of_lt (by omega : 1 < w)]
    simp [hi]

theorem getLsbD_iterate_turn (r : BitVec w) (n : Nat) {i : Nat} (hi : i < w) :
    (turn^[n] r).getLsbD i = r.getLsbD ((i + n * (w - 1)) % w) := by
  induction n generalizing r with
  | zero => simp [Nat.mod_eq_of_lt hi]
  | succ n ih =>
    rw [Function.iterate_succ_apply, ih, getLsbD_turn _ (Nat.mod_lt _ (by omega)),
      Nat.mod_add_mod, Nat.succ_mul, Nat.add_assoc]

/-- A whole turn. -/
theorem iterate_turn_width (r : BitVec w) : turn^[w] r = r := by
  apply BitVec.eq_of_getLsbD_eq
  intro i hi
  rw [getLsbD_iterate_turn r w hi, Nat.add_mul_mod_self_left, Nat.mod_eq_of_lt hi]

/-- The same words keep the difference of two registers. -/
theorem foldl_stir_xor (ks : List (BitVec w)) (r s : BitVec w) :
    ks.foldl stir r ^^^ ks.foldl stir s = turn^[ks.length] (r ^^^ s) := by
  induction ks generalizing r s with
  | nil => rfl
  | cons k ks ih =>
    have hstep : stir r k ^^^ stir s k = turn (r ^^^ s) := by
      rw [turn_xor]
      simp only [stir]
      rw [BitVec.xor_assoc, BitVec.xor_comm k, BitVec.xor_assoc, BitVec.xor_self, BitVec.xor_zero]
    rw [List.foldl_cons, List.foldl_cons, ih, hstep, List.length_cons, Function.iterate_succ_apply]

theorem turn_injective : Function.Injective (turn : BitVec w → BitVec w) := by
  rcases w with _ | w
  · intro r s _
    exact Subsingleton.elim r s
  · refine Function.Injective.of_comp (f := turn^[w]) fun r s h => ?_
    have hwhole : turn^[w + 1] r = turn^[w + 1] s := h
    rwa [iterate_turn_width, iterate_turn_width] at hwhole

/-- No step forgets. -/
theorem stir_injective (k : BitVec w) : Function.Injective (stir · k) :=
  fun _ _ h => turn_injective ((BitVec.xor_left_inj k).mp h)

/-- What `w` steps with the word `k` add to a register. -/
def drift (k : BitVec w) : BitVec w := (stir · k)^[w] 0#w

/-- **After `w` steps** with one word. -/
theorem iterate_stir_width (k r : BitVec w) : (stir · k)^[w] r = r ^^^ drift k := by
  have hdiff := foldl_stir_xor (List.replicate w k) r 0#w
  rw [foldl_replicate, foldl_replicate, List.length_replicate, BitVec.xor_zero,
    iterate_turn_width] at hdiff
  rw [← drift] at hdiff
  calc (stir · k)^[w] r = ((stir · k)^[w] r ^^^ drift k) ^^^ drift k := by
        rw [BitVec.xor_assoc, BitVec.xor_self, BitVec.xor_zero]
    _ = r ^^^ drift k := by rw [hdiff]

/-- **After `2 * w` steps** it is back. -/
theorem iterate_stir_twice (k r : BitVec w) : (stir · k)^[w + w] r = r := by
  rw [Function.iterate_add_apply, iterate_stir_width, iterate_stir_width, BitVec.xor_assoc,
    BitVec.xor_self, BitVec.xor_zero]

/-- What is added is the same in every place. -/
theorem turn_drift (k : BitVec w) : turn (drift k) = drift k := by
  have hcomm : (stir · k)^[w] (stir 0#w k) = stir ((stir · k)^[w] 0#w) k := by
    rw [← Function.iterate_succ_apply (stir · k), Function.iterate_succ_apply' (stir · k)]
  rw [iterate_stir_width, ← drift, stir, stir, turn_zero, BitVec.zero_xor, BitVec.xor_comm] at hcomm
  exact ((BitVec.xor_left_inj k).mp hcomm).symm

end C64WireGuard
