import Mathlib.Data.List.Infix
import Mathlib.Data.List.Sort

/-!
# Pieces of a string

A buffer is put together from pieces, each with the offset it belongs at: a piece at the end is
appended, a piece behind the end leaves a gap filled with one value, and a piece inside the buffer
replaces what is there. A piece is held by the buffer when it can be read back at its offset; it stays
held unless a later one disagrees with it (`held_foldl`).
-/

namespace Pieces

variable {α : Type}

/-- Write a piece, the gap before it filled. -/
def write (fill : α) (buf : List α) (p : Nat × List α) : List α :=
  if p.1 ≠ buf.length then
    let buf := buf ++ List.replicate (p.1 - buf.length) fill
    buf.take p.1 ++ p.2 ++ buf.drop (p.1 + p.2.length)
  else buf ++ p.2

theorem write_end (fill : α) (buf : List α) {p : Nat × List α} (h : p.1 = buf.length) :
    write fill buf p = buf ++ p.2 :=
  if_neg (by simp [h])

/-- At the end, too, the piece stands between what is before its offset and what is behind it. -/
theorem write_eq (fill : α) (buf : List α) (p : Nat × List α) :
    write fill buf p = (buf ++ List.replicate (p.1 - buf.length) fill).take p.1 ++ p.2 ++
      (buf ++ List.replicate (p.1 - buf.length) fill).drop (p.1 + p.2.length) := by
  by_cases h : p.1 = buf.length
  · rw [write_end fill buf h, h]
    simp
  · exact if_pos h

theorem length_filled (fill : α) (buf : List α) (n : Nat) :
    n ≤ (buf ++ List.replicate (n - buf.length) fill).length := by
  rw [List.length_append, List.length_replicate]
  omega

/-- Two pieces have the same bytes where they overlap. -/
def Agree (p q : Nat × List α) : Prop :=
  ∀ i j, i < p.2.length → j < q.2.length → p.1 + i = q.1 + j → p.2[i]? = q.2[j]?

theorem Agree.symm {p q : Nat × List α} (h : Agree p q) : Agree q p :=
  fun i j hi hj heq => (h j i hj hi heq.symm).symm

/-- The piece can be read back. -/
def Held (buf : List α) (p : Nat × List α) : Prop :=
  ∀ i, i < p.2.length → buf[p.1 + i]? = p.2[i]?

/-- What is held is a part of the buffer. -/
theorem Held.infix {buf : List α} {p : Nat × List α} (h : Held buf p) : p.2 <:+: buf := by
  have hpart : (buf.drop p.1).take p.2.length = p.2 := by
    refine List.ext_getElem? fun i => ?_
    by_cases hi : i < p.2.length
    · rw [List.getElem?_take_of_lt hi, List.getElem?_drop, h i hi]
    · rw [List.getElem?_eq_none (by simp; omega), List.getElem?_eq_none (by omega)]
  rw [← hpart]
  exact (List.take_prefix _ _).isInfix.trans (List.drop_suffix _ _).isInfix

theorem held_write_self (fill : α) (buf : List α) (p : Nat × List α) :
    Held (write fill buf p) p := by
  intro i hi
  have hlen := length_filled fill buf p.1
  rw [write_eq, List.append_assoc, List.getElem?_append_right (by simp), List.length_take,
    Nat.min_eq_left hlen, Nat.add_sub_cancel_left, List.getElem?_append_left hi]

/-- What is held stays held when a piece that agrees with it is written. -/
theorem held_write {fill : α} {buf : List α} {p q : Nat × List α} (h : Held buf p)
    (hagree : Agree p q) : Held (write fill buf q) p := by
  intro i hi
  have hlen := length_filled fill buf q.1
  have hold : (buf ++ List.replicate (q.1 - buf.length) fill)[p.1 + i]? = p.2[i]? := by
    have hsome : buf[p.1 + i]? = some p.2[i] := by rw [h i hi, List.getElem?_eq_getElem hi]
    rw [List.getElem?_append_left (List.getElem?_eq_some_iff.mp hsome).1, h i hi]
  rw [write_eq]
  generalize buf ++ List.replicate (q.1 - buf.length) fill = b at hlen hold ⊢
  rw [List.append_assoc]
  by_cases hbefore : p.1 + i < q.1
  · rw [List.getElem?_append_left (by simp; omega), List.getElem?_take_of_lt hbefore, hold]
  · rw [List.getElem?_append_right (by simp; omega), List.length_take, Nat.min_eq_left hlen]
    by_cases hin : p.1 + i - q.1 < q.2.length
    · rw [List.getElem?_append_left hin]
      exact (hagree i (p.1 + i - q.1) hi hin (by omega)).symm
    · rw [List.getElem?_append_right (by omega), List.getElem?_drop, ← hold]
      congr 1
      omega

/-- **A piece survives** when all the pieces written agree with it. -/
theorem held_foldl (fill : α) {ps : List (Nat × List α)} (buf : List α) {p : Nat × List α}
    (hp : p ∈ ps) (hagree : ∀ q ∈ ps, Agree p q) : Held (ps.foldl (write fill) buf) p := by
  have hkeep : ∀ (qs : List (Nat × List α)) (b : List α), (∀ q ∈ qs, Agree p q) → Held b p →
      Held (qs.foldl (write fill) b) p := by
    intro qs
    induction qs with
    | nil => exact fun b _ h => h
    | cons q qs ih =>
      intro b hqs h
      exact ih _ (fun r hr => hqs r (List.mem_cons_of_mem _ hr))
        (held_write h (hqs q List.mem_cons_self))
  obtain ⟨before, behind, rfl⟩ := List.append_of_mem hp
  rw [List.foldl_append, List.foldl_cons]
  exact hkeep behind _ (fun q hq => hagree q (by simp [hq])) (held_write_self fill _ p)

/-- The pieces in the order of their offsets, as a stable sort leaves them. -/
def sorted (ps : List (Nat × List α)) : List (Nat × List α) :=
  ps.insertionSort fun p q => p.1 ≤ q.1

theorem mem_sorted {ps : List (Nat × List α)} {p : Nat × List α} : p ∈ sorted ps ↔ p ∈ ps :=
  (List.perm_insertionSort _ ps).mem_iff

/-- Pieces with growing offsets come out in this order, whatever order they came in. -/
theorem sorted_eq {ps qs : List (Nat × List α)} (hperm : ps.Perm qs)
    (hqs : qs.Pairwise fun p q => p.1 < q.1) : sorted ps = qs := by
  have htotal : (sorted ps).Pairwise fun p q => p.1 ≤ q.1 := by
    have : Std.Total fun p q : Nat × List α => p.1 ≤ q.1 := ⟨fun p q => Nat.le_total p.1 q.1⟩
    have : IsTrans (Nat × List α) fun p q => p.1 ≤ q.1 := ⟨fun _ _ _ => Nat.le_trans⟩
    exact List.pairwise_insertionSort _ ps
  refine List.Perm.eq_of_pairwise (fun p q hp hq hpq hqp => ?_) htotal
    (hqs.imp Nat.le_of_lt) ((List.perm_insertionSort _ ps).trans hperm)
  have hp : p ∈ qs := hperm.mem_iff.mp (mem_sorted.mp hp)
  have hoffsets : (qs.map Prod.fst).Nodup := List.pairwise_map.mpr (hqs.imp fun h => Nat.ne_of_lt h)
  exact List.inj_on_of_nodup_map hoffsets hp hq (Nat.le_antisymm hpq hqp)

/-- Write a piece, and clear the flag unless it continues the buffer. -/
def place (fill : α) (st : List α × Bool) (p : Nat × List α) : List α × Bool :=
  (write fill st.1 p, if p.1 ≠ st.1.length then false else st.2)

theorem foldl_place_fst (fill : α) (ps : List (Nat × List α)) (st : List α × Bool) :
    (ps.foldl (place fill) st).1 = ps.foldl (write fill) st.1 := by
  induction ps generalizing st with
  | nil => rfl
  | cons p ps ih => exact ih (place fill st p)

theorem foldl_place_false (fill : α) (ps : List (Nat × List α)) (buf : List α) :
    (ps.foldl (place fill) (buf, false)).2 = false := by
  induction ps generalizing buf with
  | nil => rfl
  | cons p ps ih =>
    have hplace : place fill (buf, false) p = (write fill buf p, false) := by simp [place]
    rw [List.foldl_cons, hplace]
    exact ih _

/-- Every piece begins where the one before it ends. -/
def Chain : Nat → List (Nat × List α) → Prop
  | _, [] => True
  | off, p :: ps => p.1 = off ∧ Chain (off + p.2.length) ps

theorem place_chain (fill : α) {buf : List α} {p : Nat × List α} (h : p.1 = buf.length) (c : Bool) :
    place fill (buf, c) p = (buf ++ p.2, c) := by
  rw [place, write_end fill buf h, if_neg (by simp [h])]

/-- A chain is put together without a gap. -/
theorem foldl_place_chain (fill : α) {ps : List (Nat × List α)} {buf : List α}
    (h : Chain buf.length ps) (c : Bool) :
    ps.foldl (place fill) (buf, c) = (buf ++ ps.flatMap Prod.snd, c) := by
  induction ps generalizing buf with
  | nil => simp
  | cons p ps ih =>
    rw [List.foldl_cons, place_chain fill h.1, ih (by rw [List.length_append]; exact h.2),
      List.flatMap_cons, List.append_assoc]

/-- **A missing piece is noticed**, by the one behind it. -/
theorem foldl_place_eraseIdx (fill : α) {ps : List (Nat × List α)} {buf : List α}
    (h : Chain buf.length ps) {k : Nat} (hk : k + 1 < ps.length)
    (hlost : ∀ p, ps[k]? = some p → p.2 ≠ []) (c : Bool) :
    ((ps.eraseIdx k).foldl (place fill) (buf, c)).2 = false := by
  induction k generalizing ps buf with
  | zero =>
    match ps, h, hlost with
    | [], _, _ => exact absurd hk (Nat.not_lt_zero _)
    | [_], _, _ => exact absurd hk (Nat.lt_irrefl _)
    | p :: q :: ps, h, hlost =>
      have hpos := List.length_pos_iff.mpr (hlost p rfl)
      have hgap : q.1 ≠ buf.length := by rw [h.2.1]; omega
      have hplace : place fill (buf, c) q = (write fill buf q, false) := by
        rw [place, if_pos hgap]
      rw [List.eraseIdx_cons_zero, List.foldl_cons, hplace]
      exact foldl_place_false fill ps _
  | succ k ih =>
    match ps, h, hlost with
    | [], _, _ => exact absurd hk (Nat.not_lt_zero _)
    | p :: ps, h, hlost =>
      rw [List.eraseIdx_cons_succ, List.foldl_cons, place_chain fill h.1]
      refine ih (by rw [List.length_append]; exact h.2) (Nat.lt_of_succ_lt_succ hk) ?_
      intro q hq
      exact hlost q (by simpa using hq)

end Pieces
