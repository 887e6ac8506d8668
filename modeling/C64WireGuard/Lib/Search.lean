import Mathlib.Data.List.Infix

/-!
# Searching a string

`find` gives the next offset at which a pattern occurs, and a scan calls it again behind every hit, so
it comes past every occurrence, overlapping ones included (`scan_eq`).
-/

namespace Search

variable {α β : Type}

/-- The pattern occurs at offset `i`. -/
def OccursAt (pat hay : List α) (i : Nat) : Prop := i ≤ hay.length ∧ pat <+: hay.drop i

/-- The pattern occurs somewhere when it is a contiguous part. -/
theorem infix_iff_occursAt {pat hay : List α} : pat <:+: hay ↔ ∃ i, OccursAt pat hay i := by
  constructor
  · rintro ⟨s, t, rfl⟩
    refine ⟨s.length, by simp, ?_⟩
    rw [List.append_assoc, List.drop_left]
    exact List.prefix_append pat t
  · rintro ⟨i, -, hpre⟩
    exact hpre.isInfix.trans (List.drop_suffix i hay).isInfix

/-- A part of the pattern occurs where the pattern does. -/
theorem infix_take {pat hay : List α} {m n : Nat} (hmn : m ≤ n) (h : pat.take n <:+: hay) :
    pat.take m <:+: hay :=
  (List.take_prefix_take_left hmn).isInfix.trans h

variable [DecidableEq α]

instance (pat hay : List α) (i : Nat) : Decidable (OccursAt pat hay i) :=
  inferInstanceAs (Decidable (_ ∧ _))

/-- The first offset from `start` on at which the pattern occurs. -/
def find (pat hay : List α) (start : Nat) : Option Nat :=
  (List.range' start (hay.length + 1 - start)).find? fun i => decide (OccursAt pat hay i)

theorem find_of_occursAt {pat hay : List α} {i : Nat} (h : OccursAt pat hay i) :
    find pat hay i = some i := by
  obtain ⟨n, hn⟩ := Nat.exists_eq_add_of_le h.1
  have hlen : hay.length + 1 - i = n + 1 := by omega
  rw [find, hlen, List.range'_succ, List.find?_cons, decide_eq_true h]

theorem find_of_not_occursAt {pat hay : List α} {i : Nat} (h : ¬ OccursAt pat hay i) :
    find pat hay i = find pat hay (i + 1) := by
  by_cases hi : i ≤ hay.length
  · have hlen : hay.length + 1 - i = hay.length + 1 - (i + 1) + 1 := by omega
    rw [find, hlen, List.range'_succ, List.find?_cons, decide_eq_false h]
    rfl
  · have hlen : hay.length + 1 - i = 0 := by omega
    have hlen' : hay.length + 1 - (i + 1) = 0 := by omega
    rw [find, find, hlen, hlen']
    rfl

theorem find_past {pat hay : List α} {i : Nat} (h : hay.length < i) : find pat hay i = none := by
  have hlen : hay.length + 1 - i = 0 := by omega
  rw [find, hlen]
  rfl

/-- Call `visit` with a hit, search on behind it, and so on. -/
def scanFrom (pat hay : List α) (visit : β → Nat → β) : Nat → Option Nat → β → β
  | fuel + 1, some i, b => scanFrom pat hay visit fuel (find pat hay (i + 1)) (visit b i)
  | _, _, b => b

/-- The offsets at which the pattern occurs, in order. -/
def occurrences (pat hay : List α) : List Nat :=
  (List.range' 0 (hay.length + 1)).filter fun i => decide (OccursAt pat hay i)

theorem mem_occurrences {pat hay : List α} {i : Nat} :
    i ∈ occurrences pat hay ↔ OccursAt pat hay i := by
  simp only [occurrences, List.mem_filter, List.mem_range'_1, decide_eq_true_eq]
  constructor
  · exact fun h => h.2
  · exact fun h => ⟨⟨Nat.zero_le _, by have := h.1; omega⟩, h⟩

/-- Scan the whole string. -/
def scan (pat hay : List α) (visit : β → Nat → β) (b : β) : β :=
  scanFrom pat hay visit (hay.length + 2) (find pat hay 0) b

theorem scanFrom_eq {pat hay : List α} (visit : β → Nat → β) {n start fuel : Nat}
    (hn : start + n = hay.length + 1) (hfuel : n < fuel) (b : β) :
    scanFrom pat hay visit fuel (find pat hay start) b =
      ((List.range' start n).filter fun i => decide (OccursAt pat hay i)).foldl visit b := by
  induction n generalizing start fuel b with
  | zero =>
    rw [find_past (by omega)]
    cases fuel <;> rfl
  | succ n ih =>
    by_cases h : OccursAt pat hay start
    · cases fuel with
      | zero => exact absurd hfuel (Nat.not_lt_zero _)
      | succ fuel =>
        rw [find_of_occursAt h, scanFrom, ih (by omega) (Nat.lt_of_succ_lt_succ hfuel),
          List.range'_succ, List.filter_cons_of_pos (by simpa using h), List.foldl_cons]
    · rw [find_of_not_occursAt h, ih (by omega) (by omega), List.range'_succ,
        List.filter_cons_of_neg (by simpa using h)]

/-- **A scan comes past every occurrence**, in order. -/
theorem scan_eq (pat hay : List α) (visit : β → Nat → β) (b : β) :
    scan pat hay visit b = (occurrences pat hay).foldl visit b :=
  scanFrom_eq visit (Nat.zero_add _) (Nat.lt_succ_self _) b

end Search
