import C64WireGuard.Lib.Search
import Mathlib.Data.List.Dedup

/-!
# `ip65_hw_checks.py`, `wire_plaintext_search.py`: the searchers

`_longest_run` looks for the longest part of a needle in a byte string, with a binary search from
every offset; `_search_forms` looks for a needle in the encodings a C64 may send; and
`plaintext_absent` calls it once for each of five encodings and keeps its `exact` hits.
-/

namespace C64WireGuard.Tools

open Search

/-! ## Encodings -/

/-- `petscii_form`. -/
def petsciiForm (needle : List UInt8) : List UInt8 :=
  needle.map fun b => if 0x61 ≤ b ∧ b ≤ 0x7a then b - 0x20 else b

/-- `petscii_shifted_form`. -/
def petsciiShiftedForm (needle : List UInt8) : List UInt8 :=
  (petsciiForm needle).map fun b => if 0x41 ≤ b ∧ b ≤ 0x5a then b + 0x80 else b

/-- `screen_code_form`. -/
def screenCodeForm (needle : List UInt8) : List UInt8 :=
  needle.map fun b =>
    if 0x41 ≤ b ∧ b ≤ 0x5a then b - 0x40 else if 0x61 ≤ b ∧ b ≤ 0x7a then b - 0x60 else b

/-- The labels of a hit. -/
inductive Form
  | exact
  | petscii
  | petsciiShifted
  | screenCode
  | reversed
  | partialRun
  | pad
  | nonip
deriving DecidableEq

/-- The text of a label. -/
def Form.text : Form → String
  | .exact => "exact"
  | .petscii => "petscii"
  | .petsciiShifted => "petscii-shifted"
  | .screenCode => "screen-code"
  | .reversed => "reversed"
  | .partialRun => "partial"
  | .pad => "pad"
  | .nonip => "nonip"

/-! ## `_longest_run` -/

/-- The `while` of `_longest_run`: the longest prefix of `tail` in `hay`, between `lo` and `hi`. -/
def runSearch (hay tail : List UInt8) : Nat → Nat → Nat → Nat → Nat
  | 0, _, _, found => found
  | fuel + 1, lo, hi, found =>
    if lo ≤ hi then
      let mid := (lo + hi) / 2
      if tail.take mid <:+: hay then runSearch hay tail fuel (mid + 1) hi mid
      else runSearch hay tail fuel lo (mid - 1) found
    else found

/-- The `for` of `_longest_run`, over the offsets left. -/
def runFrom (hay needle : List UInt8) : List Nat → Nat × Int → Nat × Int
  | [], best => best
  | start :: starts, best =>
    let n := needle.length
    if n - start ≤ best.1 then best
    else
      let found := runSearch hay (needle.drop start) (n - start + 1) (best.1 + 1) (n - start) 0
      runFrom hay needle starts (if best.1 < found then (found, start) else best)

/-- `_longest_run`: the length, and the offset in the needle. -/
def longestRun (hay needle : List UInt8) : Nat × Int :=
  runFrom hay needle (List.range needle.length) (0, -1)

/-- The binary search finds the longest prefix that occurs: prefixes of one that occurs occur. -/
theorem runSearch_spec (hay tail : List UInt8) (fuel lo hi found : Nat)
    (hlo : 0 < lo) (hfuel : hi + 1 - lo ≤ fuel) :
    (∀ m, lo ≤ m → m ≤ hi → tail.take m <:+: hay → m ≤ runSearch hay tail fuel lo hi found) ∧
      (runSearch hay tail fuel lo hi found = found ∨
        lo ≤ runSearch hay tail fuel lo hi found ∧ runSearch hay tail fuel lo hi found ≤ hi ∧
          tail.take (runSearch hay tail fuel lo hi found) <:+: hay) := by
  induction fuel generalizing lo hi found with
  | zero => exact ⟨fun m h₁ h₂ => by omega, .inl rfl⟩
  | succ fuel ih =>
    rw [runSearch]
    by_cases hle : lo ≤ hi
    · rw [if_pos hle]
      dsimp only
      by_cases hmid : tail.take ((lo + hi) / 2) <:+: hay
      · rw [if_pos hmid]
        obtain ⟨hmax, hres⟩ := ih ((lo + hi) / 2 + 1) hi ((lo + hi) / 2) (Nat.succ_pos _)
          (by omega)
        generalize runSearch hay tail fuel ((lo + hi) / 2 + 1) hi ((lo + hi) / 2) = r at hmax hres ⊢
        have hge : (lo + hi) / 2 ≤ r := by omega
        refine ⟨fun m h₁ h₂ hm => ?_, .inr ?_⟩
        · by_cases h : m ≤ (lo + hi) / 2
          · exact h.trans hge
          · exact hmax m (by omega) h₂ hm
        · rcases hres with rfl | ⟨-, hr, hocc⟩
          · exact ⟨by omega, by omega, hmid⟩
          · exact ⟨by omega, hr, hocc⟩
      · rw [if_neg hmid]
        obtain ⟨hmax, hres⟩ := ih lo ((lo + hi) / 2 - 1) found hlo (by omega)
        generalize runSearch hay tail fuel lo ((lo + hi) / 2 - 1) found = r at hmax hres ⊢
        refine ⟨fun m h₁ h₂ hm => ?_, ?_⟩
        · by_cases h : (lo + hi) / 2 ≤ m
          · exact absurd (infix_take h hm) hmid
          · exact hmax m h₁ (by omega) hm
        · rcases hres with rfl | ⟨h₁, hr, hocc⟩
          · exact .inl rfl
          · exact .inr ⟨h₁, by omega, hocc⟩
    · rw [if_neg hle]
      exact ⟨fun m h₁ h₂ => by omega, .inl rfl⟩

/-- What the pass over the offsets has found. -/
structure Best (hay needle : List UInt8) (starts : List Nat) (best : Nat × Int) : Prop where
  found : best.1 = 0 ∧ best.2 = -1 ∨ ∃ start : Nat, best.2 = start ∧ 0 < best.1 ∧
    start + best.1 ≤ needle.length ∧ (needle.drop start).take best.1 <:+: hay
  longest : ∀ start m, start ∉ starts → start + m ≤ needle.length →
    (needle.drop start).take m <:+: hay → m ≤ best.1

theorem runFrom_spec {hay needle : List UInt8} {start k : Nat} {best : Nat × Int}
    (hk : start + k = needle.length) (h : Best hay needle (List.range' start k) best) :
    Best hay needle [] (runFrom hay needle (List.range' start k) best) := by
  induction k generalizing start best with
  | zero => exact h
  | succ k ih =>
    rw [List.range'_succ, runFrom]
    dsimp only
    by_cases hprune : needle.length - start ≤ best.1
    · -- no later offset has room for more
      rw [if_pos hprune]
      refine ⟨h.found, fun s m _ hs hm => ?_⟩
      by_cases hin : s ∈ List.range' start (k + 1)
      · have := (List.mem_range'_1.mp hin).1
        omega
      · exact h.longest s m hin hs hm
    · rw [if_neg hprune]
      obtain ⟨hmax, hres⟩ := runSearch_spec hay (needle.drop start)
        (needle.length - start + 1) (best.1 + 1) (needle.length - start) 0 (Nat.succ_pos _) (by omega)
      generalize runSearch hay (needle.drop start) (needle.length - start + 1) (best.1 + 1)
        (needle.length - start) 0 = r at hmax hres ⊢
      refine ih (by omega) ?_
      by_cases hbetter : best.1 < r
      · obtain ⟨-, hr, hocc⟩ := hres.resolve_left (by omega)
        rw [if_pos hbetter]
        refine ⟨.inr ⟨start, rfl, by dsimp only; omega, by dsimp only; omega, hocc⟩, ?_⟩
        intro s m hs hlen hm
        by_cases heq : s = start
        · subst heq
          by_cases hmb : m ≤ best.1
          · exact hmb.trans hbetter.le
          · exact hmax m (by omega) (by omega) hm
        · refine (h.longest s m ?_ hlen hm).trans hbetter.le
          rw [List.range'_succ, List.mem_cons]
          exact fun h => h.elim heq hs
      · rw [if_neg hbetter]
        refine ⟨h.found, fun s m hs hlen hm => ?_⟩
        by_cases heq : s = start
        · subst heq
          by_contra hmb
          have := hmax m (by omega) (by omega) hm
          omega
        · refine h.longest s m ?_ hlen hm
          rw [List.range'_succ, List.mem_cons]
          exact fun h => h.elim heq hs

/-- **`_longest_run` is exact**: no longer part of the needle occurs, and one of this length starts
at the offset returned; 0 and -1 when none does. -/
theorem longestRun_spec (hay needle : List UInt8) :
    (∀ w, w <:+: needle → w <:+: hay → w.length ≤ (longestRun hay needle).1) ∧
      (longestRun hay needle = (0, -1) ∨
        ∃ start : Nat, (longestRun hay needle).2 = start ∧ 0 < (longestRun hay needle).1 ∧
          start + (longestRun hay needle).1 ≤ needle.length ∧
          (needle.drop start).take (longestRun hay needle).1 <:+: hay) := by
  have hstart : Best hay needle (List.range' 0 needle.length) (0, -1) := by
    refine ⟨.inl ⟨rfl, rfl⟩, fun s m hs hlen _ => ?_⟩
    have : needle.length ≤ s := by
      by_contra h
      exact hs (List.mem_range'_1.mpr ⟨Nat.zero_le _, by omega⟩)
    omega
  have hbest := runFrom_spec (Nat.zero_add _) hstart
  rw [← List.range_eq_range'] at hbest
  change Best hay needle [] (longestRun hay needle) at hbest
  constructor
  · rintro w ⟨s, t, hw⟩ hocc
    refine hbest.longest s.length w.length (List.not_mem_nil) ?_ ?_
    · rw [← hw]
      simp
    · rw [← hw, List.append_assoc, List.drop_left, List.take_left]
      exact hocc
  · rcases hbest.found with ⟨h₁, h₂⟩ | h
    · exact .inl (Prod.ext h₁ h₂)
    · exact .inr h

/-! ## `_search_forms` -/

/-- One hit: recorded unless there was one at this offset. -/
def record (form : Form) (pat : List UInt8) (acc : List Nat × List (Form × Nat × Nat)) (i : Nat) :
    List Nat × List (Form × Nat × Nat) :=
  if i ∈ acc.1 then acc else (acc.1 ++ [i], acc.2 ++ [(form, i, pat.length)])

/-- The patterns `_search_forms` goes through. -/
def searchPatterns (needle : List UInt8) : List (Form × List UInt8) :=
  [(.exact, needle), (.petscii, petsciiForm needle), (.petsciiShifted, petsciiShiftedForm needle),
    (.reversed, needle.reverse)]

/-- The `for` of `_search_forms`: `seen`, and `out`. A pattern that equals the needle is passed
over. -/
def searchPattern (hay needle : List UInt8) (acc : List Nat × List (Form × Nat × Nat))
    (p : Form × List UInt8) : List Nat × List (Form × Nat × Nat) :=
  if p.1 ≠ .exact ∧ p.2 = needle then acc else scan p.2 hay (record p.1 p.2) acc

/-- `_search_forms`: label, offset and length of every hit. -/
def searchForms (hay needle : List UInt8) : List (Form × Nat × Nat) :=
  ((searchPatterns needle).foldl (searchPattern hay needle) ([], [])).2

theorem mem_foldl_record (form : Form) (pat : List UInt8) (is : List Nat)
    (acc : List Nat × List (Form × Nat × Nat)) :
    (∀ i, i ∈ (is.foldl (record form pat) acc).1 ↔ i ∈ acc.1 ∨ i ∈ is) ∧
      ∀ x, x ∈ (is.foldl (record form pat) acc).2 ↔
        x ∈ acc.2 ∨ ∃ i ∈ is, i ∉ acc.1 ∧ x = (form, i, pat.length) := by
  induction is generalizing acc with
  | nil => simp
  | cons i is ih =>
    rw [List.foldl_cons]
    obtain ⟨hseen, hout⟩ := ih (record form pat acc i)
    by_cases hi : i ∈ acc.1
    · simp only [record, if_pos hi] at hseen hout ⊢
      constructor
      · intro j
        rw [hseen, List.mem_cons]
        constructor
        · rintro (h | h)
          · exact .inl h
          · exact .inr (.inr h)
        · rintro (h | rfl | h)
          · exact .inl h
          · exact .inl hi
          · exact .inr h
      · intro x
        rw [hout]
        constructor
        · rintro (h | ⟨j, hj, hnew, rfl⟩)
          · exact .inl h
          · exact .inr ⟨j, List.mem_cons_of_mem _ hj, hnew, rfl⟩
        · rintro (h | ⟨j, hj, hnew, rfl⟩)
          · exact .inl h
          · rcases List.mem_cons.mp hj with rfl | hj
            · exact absurd hi hnew
            · exact .inr ⟨j, hj, hnew, rfl⟩
    · simp only [record, if_neg hi] at hseen hout ⊢
      constructor
      · intro j
        rw [hseen, List.mem_append, List.mem_singleton, List.mem_cons, or_assoc]
      · intro x
        rw [hout, List.mem_append, List.mem_singleton]
        constructor
        · rintro ((h | rfl) | ⟨j, hj, hnew, rfl⟩)
          · exact .inl h
          · exact .inr ⟨i, List.mem_cons_self, hi, rfl⟩
          · exact .inr ⟨j, List.mem_cons_of_mem _ hj,
              fun h => hnew (List.mem_append_left _ h), rfl⟩
        · rintro (h | ⟨j, hj, hnew, rfl⟩)
          · exact .inl (.inl h)
          · by_cases heq : j = i
            · exact .inl (.inr (by rw [heq]))
            · refine .inr ⟨j, (List.mem_cons.mp hj).resolve_left heq, ?_, rfl⟩
              rw [List.mem_append, List.mem_singleton]
              exact fun h => h.elim hnew heq

/-- What has been seen so far is what is in the list of hits. -/
def Listed (acc : List Nat × List (Form × Nat × Nat)) : Prop :=
  ∀ i, i ∈ acc.1 ↔ ∃ x ∈ acc.2, x.2.1 = i

theorem searchPattern_spec (hay needle : List UInt8) {acc : List Nat × List (Form × Nat × Nat)}
    (h : Listed acc) (p : Form × List UInt8) :
    Listed (searchPattern hay needle acc p) ∧
      (∀ x, x ∈ acc.2 → x ∈ (searchPattern hay needle acc p).2) ∧
      (∀ x, x ∈ (searchPattern hay needle acc p).2 →
        x ∈ acc.2 ∨ x.1 = p.1 ∧ OccursAt p.2 hay x.2.1) ∧
      (¬ (p.1 ≠ .exact ∧ p.2 = needle) → ∀ i, OccursAt p.2 hay i →
        i ∈ (searchPattern hay needle acc p).1) := by
  unfold searchPattern
  by_cases hskip : p.1 ≠ .exact ∧ p.2 = needle
  · rw [if_pos hskip]
    exact ⟨h, fun x hx => hx, fun x hx => .inl hx, fun hn => absurd hskip hn⟩
  · rw [if_neg hskip, scan_eq]
    obtain ⟨hseen, hout⟩ := mem_foldl_record p.1 p.2 (occurrences p.2 hay) acc
    refine ⟨fun i => ?_, fun x hx => (hout x).mpr (.inl hx), fun x hx => ?_,
      fun _ i hi => (hseen i).mpr (.inr (mem_occurrences.mpr hi))⟩
    · rw [hseen]
      constructor
      · intro hi
        by_cases hold : i ∈ acc.1
        · obtain ⟨x, hx, hxi⟩ := (h i).mp hold
          exact ⟨x, (hout x).mpr (.inl hx), hxi⟩
        · exact ⟨_, (hout _).mpr (.inr ⟨i, hi.resolve_left hold, hold, rfl⟩), rfl⟩
      · rintro ⟨x, hx, rfl⟩
        rcases (hout x).mp hx with hx | ⟨j, hj, -, rfl⟩
        · exact .inl ((h _).mpr ⟨x, hx, rfl⟩)
        · exact .inr hj
    · rcases (hout x).mp hx with hx | ⟨j, hj, -, rfl⟩
      · exact .inl hx
      · exact .inr ⟨rfl, mem_occurrences.mp hj⟩

theorem foldl_searchPattern (hay needle : List UInt8) (ps : List (Form × List UInt8))
    {acc : List Nat × List (Form × Nat × Nat)} (h : Listed acc) :
    let r := ps.foldl (searchPattern hay needle) acc
    Listed r ∧ (∀ x, x ∈ acc.2 → x ∈ r.2) ∧
      (∀ x, x ∈ r.2 → x ∈ acc.2 ∨ ∃ p ∈ ps, x.1 = p.1 ∧ OccursAt p.2 hay x.2.1) ∧
      ∀ p ∈ ps, ¬ (p.1 ≠ .exact ∧ p.2 = needle) → ∀ i, OccursAt p.2 hay i → i ∈ r.1 := by
  induction ps generalizing acc with
  | nil => exact ⟨h, fun x hx => hx, fun x hx => .inl hx, by simp⟩
  | cons p ps ih =>
    obtain ⟨hlisted, hkeep, hfrom, hfind⟩ := searchPattern_spec hay needle h p
    obtain ⟨hlisted', hkeep', hfrom', hfind'⟩ := ih hlisted
    refine ⟨hlisted', fun x hx => hkeep' x (hkeep x hx), fun x hx => ?_, fun q hq hskip i hi => ?_⟩
    · rcases hfrom' x hx with hx | ⟨q, hq, hx⟩
      · rcases hfrom x hx with hx | hx
        · exact .inl hx
        · exact .inr ⟨p, List.mem_cons_self, hx⟩
      · exact .inr ⟨q, List.mem_cons_of_mem _ hq, hx⟩
    · rcases List.mem_cons.mp hq with rfl | hq
      · obtain ⟨x, hx, hxi⟩ := (hlisted i).mp (hfind hskip i hi)
        exact (hlisted' i).mpr ⟨x, hkeep' x hx, hxi⟩
      · exact hfind' q hq hskip i hi

/-- Nothing is found when no pattern occurs. -/
theorem searchForms_eq_nil_iff (hay needle : List UInt8) :
    searchForms hay needle = [] ↔ ∀ p ∈ searchPatterns needle, ¬ p.2 <:+: hay := by
  have hempty : Listed ([], []) := fun i => by simp
  obtain ⟨hlisted, -, hfrom, hfind⟩ := foldl_searchPattern hay needle
    (searchPatterns needle) hempty
  constructor
  · intro hnil
    have hexact : ¬ needle <:+: hay := fun hocc => by
      obtain ⟨i, hi⟩ := infix_iff_occursAt.mp hocc
      obtain ⟨x, hx, -⟩ := (hlisted i).mp
        (hfind (.exact, needle) List.mem_cons_self (by simp) i hi)
      rw [searchForms] at hnil
      rw [hnil] at hx
      exact List.not_mem_nil hx
    intro p hp hocc
    by_cases hskip : p.1 ≠ .exact ∧ p.2 = needle
    · rw [hskip.2] at hocc
      exact hexact hocc
    · obtain ⟨i, hi⟩ := infix_iff_occursAt.mp hocc
      obtain ⟨x, hx, -⟩ := (hlisted i).mp (hfind p hp hskip i hi)
      rw [searchForms] at hnil
      rw [hnil] at hx
      exact List.not_mem_nil hx
  · intro hnone
    refine List.eq_nil_iff_forall_not_mem.mpr fun x hx => ?_
    rcases hfrom x hx with hx | ⟨p, hp, -, hocc⟩
    · exact List.not_mem_nil hx
    · exact hnone p hp (infix_iff_occursAt.mpr ⟨_, hocc⟩)

/-- The hits labelled `exact` are the occurrences of the needle: no other form shadows one. -/
theorem searchForms_exact_iff (hay needle : List UInt8) (i : Nat) :
    (∃ ln, (Form.exact, i, ln) ∈ searchForms hay needle) ↔ OccursAt needle hay i := by
  have hempty : Listed ([], []) := fun i => by simp
  obtain ⟨-, -, hfrom, -⟩ := foldl_searchPattern hay needle
    (searchPatterns needle) hempty
  constructor
  · rintro ⟨ln, hx⟩
    rcases hfrom _ hx with hx | ⟨p, hp, hform, hocc⟩
    · exact absurd hx List.not_mem_nil
    · simp only [searchPatterns, List.mem_cons, List.not_mem_nil, or_false] at hp
      rcases hp with rfl | rfl | rfl | rfl
      · exact hocc
      · exact nomatch hform
      · exact nomatch hform
      · exact nomatch hform
  · intro hocc
    obtain ⟨hlisted, -, -, -⟩ := searchPattern_spec hay needle hempty (.exact, needle)
    have hfirst : (Form.exact, i, needle.length) ∈
        (searchPattern hay needle ([], []) (.exact, needle)).2 := by
      have hskip : ¬ ((Form.exact, needle).1 ≠ .exact ∧ (Form.exact, needle).2 = needle) := by simp
      rw [searchPattern, if_neg hskip, scan_eq]
      exact ((mem_foldl_record _ _ _ _).2 _).mpr
        (.inr ⟨i, mem_occurrences.mpr hocc, List.not_mem_nil, rfl⟩)
    refine ⟨needle.length, ?_⟩
    exact (foldl_searchPattern hay needle (searchPatterns needle).tail hlisted).2.1 _ hfirst

/-! ## `plaintext_absent` -/

/-- A named plaintext: text, or bytes. -/
inductive Needle
  | text (s : String)
  | bytes (b : List UInt8)

/-- `str.encode("ascii")`, or the bytes as they are. -/
def Needle.encode : Needle → Option (List UInt8)
  | .text s => s.toList.mapM fun c => if c.toNat < 128 then some (UInt8.ofNat c.toNat) else none
  | .bytes b => some b

/-- Why a search was refused. -/
inductive SearchError
  | notAscii
  | emptyNeedle
  | emptyHaystack
  | noNeedles
  | tooLong (label : String) (need searched : Nat)

/-- The message of a `VacuousSearchError`; `UnicodeEncodeError` has its own. -/
def SearchError.message : SearchError → Option String
  | .notAscii => none
  | .emptyNeedle => some "empty needle: a search for nothing always succeeds"
  | .emptyHaystack => some "empty haystack: nothing was searched"
  | .noNeedles => some "no needles: nothing was looked for"
  | .tooLong label need searched =>
    some ("needle '" ++ label ++ "' is " ++ toString need ++ " B but only " ++ toString searched ++
      " B were searched: it could not have appeared at any offset")

/-- `Hit`. -/
structure Hit where
  label : String
  form : Form
  offset : Nat
  length : Nat

/-- `str(hit)`. -/
def Hit.text (h : Hit) : String :=
  h.label ++ ":" ++ h.form.text ++ "@" ++ toString h.offset ++ "+" ++ toString h.length

/-- The byte forms of a needle. -/
def formsOf (raw : List UInt8) : List (Form × List UInt8) :=
  [(.exact, raw), (.petscii, petsciiForm raw), (.petsciiShifted, petsciiShiftedForm raw),
    (.screenCode, screenCodeForm raw), (.reversed, raw.reverse)]

/-- `needle_forms`. -/
def needleForms (needle : Needle) : Except SearchError (List (Form × List UInt8)) :=
  match needle.encode with
  | none => .error .notAscii
  | some raw => if raw = [] then .error .emptyNeedle else .ok (formsOf raw)

/-- The hits of one form: of what `search_forms` finds only the `exact` branch is new. -/
def formHits (hay : List UInt8) (label : String) (p : Form × List UInt8) : List Hit :=
  (searchForms hay p.2).filterMap fun x =>
    if x.1 ≠ .exact then none else some ⟨label, p.1, x.2.1, x.2.2⟩

/-- The body of the `for` of `find_plaintext`. -/
def findNeedle (hay : List UInt8) (hits : List Hit) (p : String × Needle) :
    Except SearchError (List Hit) := do
  let forms ← needleForms p.2
  let need := ((forms.lookup .exact).getD []).length
  if hay.length < need then throw (.tooLong p.1 need hay.length)
  return hits ++ forms.flatMap (formHits hay p.1)

/-- `find_plaintext`. -/
def findPlaintext (buf : List UInt8) (needles : List (String × Needle)) :
    Except SearchError (List Hit) :=
  if buf = [] then throw .emptyHaystack
  else if needles = [] then throw .noNeedles
  else needles.foldlM (findNeedle buf) []

/-- `plaintext_absent`: the verdict, and the detail that goes with it. -/
def plaintextAbsent (buf : List UInt8) (needles : List (String × Needle)) :
    Except SearchError (Bool × String) := do
  let hits ← findPlaintext buf needles
  let n := toString buf.length
  if hits ≠ [] then
    return (false, toString hits.length ++ " hit(s) in " ++ n ++ " B: " ++
      ", ".intercalate ((hits.take 6).map Hit.text))
  else
    let forms ← needleForms ((needles.map Prod.snd).headD (.bytes []))
    return (true, n ++ " B searched for " ++ toString needles.length ++ " needle(s) [" ++
      ", ".intercalate (needles.map Prod.fst) ++ "] in " ++
      toString (forms.map Prod.snd).dedup.length ++ " distinct encoding(s) each; no hit")

theorem formHits_eq_nil_iff {hay : List UInt8} {label : String} {p : Form × List UInt8} :
    formHits hay label p = [] ↔ ∀ i, ¬ OccursAt p.2 hay i := by
  rw [formHits, List.filterMap_eq_nil_iff]
  constructor
  · intro hnone i hocc
    obtain ⟨ln, hx⟩ := (searchForms_exact_iff hay p.2 i).mpr hocc
    simpa using hnone _ hx
  · rintro hnone ⟨form, i, ln⟩ hx
    by_cases hform : form = .exact
    · subst hform
      exact absurd ((searchForms_exact_iff hay p.2 i).mp ⟨ln, hx⟩) (hnone i)
    · rw [if_pos hform]

/-- The hits of one needle. -/
def needleHits (hay : List UInt8) (p : String × Needle) : List Hit :=
  (formsOf (p.2.encode.getD [])).flatMap (formHits hay p.1)

theorem needleHits_eq_nil_iff {hay : List UInt8} {p : String × Needle} {raw : List UInt8}
    (hraw : p.2.encode = some raw) :
    needleHits hay p = [] ↔ ∀ f ∈ formsOf raw, ∀ i, ¬ OccursAt f.2 hay i := by
  rw [needleHits, hraw, Option.getD_some, List.flatMap_eq_nil_iff]
  exact forall₂_congr fun f _ => formHits_eq_nil_iff

/-- A needle that fits is searched for in its five forms. -/
theorem findNeedle_ok {hay : List UInt8} {p : String × Needle} {raw : List UInt8}
    (hraw : p.2.encode = some raw) (hpos : raw ≠ []) (hfit : raw.length ≤ hay.length)
    (hits : List Hit) : findNeedle hay hits p = .ok (hits ++ needleHits hay p) := by
  have hforms : needleForms p.2 = .ok (formsOf raw) := by
    rw [needleForms, hraw]
    exact if_neg hpos
  have hneed : ¬ hay.length < (((formsOf raw).lookup .exact).getD []).length := Nat.not_lt.mpr hfit
  rw [findNeedle, hforms, needleHits, hraw]
  exact if_neg hneed

theorem findNeedle_empty {hay : List UInt8} {p : String × Needle} (hraw : p.2.encode = some [])
    (hits : List Hit) : findNeedle hay hits p = .error .emptyNeedle := by
  have hforms : needleForms p.2 = .error .emptyNeedle := by
    rw [needleForms, hraw]
    exact if_pos rfl
  rw [findNeedle, hforms]
  rfl

/-- The needles one after another: their hits, or no verdict when one of them is empty. -/
theorem foldlM_findNeedle {hay : List UInt8} {needles : List (String × Needle)}
    (hfit : ∀ p ∈ needles, ∃ raw, p.2.encode = some raw ∧ raw.length ≤ hay.length)
    (hits : List Hit) :
    if ∃ p ∈ needles, p.2.encode = some [] then
      ∃ e, needles.foldlM (findNeedle hay) hits = .error e
    else needles.foldlM (findNeedle hay) hits = .ok (hits ++ needles.flatMap (needleHits hay)) := by
  induction needles generalizing hits with
  | nil => simp [pure, Except.pure]
  | cons p needles ih =>
    obtain ⟨raw, hraw, hlen⟩ := hfit p List.mem_cons_self
    have ih := ih fun q hq => hfit q (List.mem_cons_of_mem _ hq)
    by_cases hempty : raw = []
    · subst hempty
      rw [if_pos ⟨p, List.mem_cons_self, hraw⟩, List.foldlM_cons, findNeedle_empty hraw]
      exact ⟨_, rfl⟩
    · have hp : p.2.encode ≠ some [] := by simpa [hraw] using hempty
      have hstep := findNeedle_ok hraw hempty hlen hits
      rw [List.foldlM_cons, hstep]
      have hrest := ih (hits ++ needleHits hay p)
      by_cases h : ∃ q ∈ needles, q.2.encode = some []
      · rw [if_pos h] at hrest
        obtain ⟨q, hq, hqe⟩ := h
        rw [if_pos ⟨q, List.mem_cons_of_mem _ hq, hqe⟩]
        exact hrest
      · rw [if_neg h] at hrest
        have h' : ¬ ∃ q ∈ p :: needles, q.2.encode = some [] := by
          rintro ⟨q, hq, hqe⟩
          rcases List.mem_cons.mp hq with rfl | hq
          · exact hp hqe
          · exact h ⟨q, hq, hqe⟩
        rw [if_neg h', List.flatMap_cons, ← List.append_assoc]
        exact hrest

/-- **The searchers are exact.** `_longest_run` gives the length of the longest part of the needle in
the string and an offset at which one starts; and `plaintext_absent` says `true` exactly when none of
the five forms of any needle occurs at any offset, and gives a verdict unless a needle is empty. -/
theorem searchers_exact :
    (∀ hay needle,
      (∀ w, w <:+: needle → w <:+: hay → w.length ≤ (longestRun hay needle).1) ∧
      (longestRun hay needle = (0, -1) ∨
        ∃ start : Nat, (longestRun hay needle).2 = start ∧ 0 < (longestRun hay needle).1 ∧
          start + (longestRun hay needle).1 ≤ needle.length ∧
          (needle.drop start).take (longestRun hay needle).1 <:+: hay)) ∧
    ∀ buf needles, buf ≠ [] → needles ≠ [] →
      (∀ p ∈ needles, ∃ raw, p.2.encode = some raw ∧ raw.length ≤ buf.length) →
      ((∃ detail, plaintextAbsent buf needles = .ok (true, detail)) ↔
        ∀ p ∈ needles, ∀ raw, p.2.encode = some raw →
          ∀ pat ∈ [raw, petsciiForm raw, petsciiShiftedForm raw, screenCodeForm raw, raw.reverse],
            ∀ i, ¬ (i ≤ buf.length ∧ pat <+: buf.drop i)) ∧
      ((∀ p ∈ needles, p.2.encode ≠ some []) → ∃ r, plaintextAbsent buf needles = .ok r) := by
  refine ⟨longestRun_spec, fun buf needles hbuf hneedles hfit => ?_⟩
  have hfold := foldlM_findNeedle hfit []
  have hfind : findPlaintext buf needles = needles.foldlM (findNeedle buf) [] := by
    rw [findPlaintext, if_neg hbuf, if_neg hneedles]
  rw [← hfind] at hfold
  by_cases hempty : ∃ p ∈ needles, p.2.encode = some []
  · rw [if_pos hempty] at hfold
    obtain ⟨e, he⟩ := hfold
    obtain ⟨p, hp, hpe⟩ := hempty
    have herr : plaintextAbsent buf needles = .error e := by
      rw [plaintextAbsent, he]
      rfl
    refine ⟨⟨fun ⟨detail, hok⟩ => ?_, fun hnone => ?_⟩, fun hne => absurd hpe (hne p hp)⟩
    · rw [herr] at hok
      exact nomatch hok
    · exact absurd ⟨Nat.zero_le _, List.nil_prefix⟩ (hnone p hp [] hpe [] List.mem_cons_self 0)
  · rw [if_neg hempty, List.nil_append] at hfold
    have hforms : ∃ forms, needleForms ((needles.map Prod.snd).headD (.bytes [])) = .ok forms := by
      cases needles with
      | nil => exact absurd rfl hneedles
      | cons p needles =>
        obtain ⟨raw, hraw, -⟩ := hfit p List.mem_cons_self
        have hpos : raw ≠ [] := fun h => hempty ⟨p, List.mem_cons_self, by rw [hraw, h]⟩
        refine ⟨formsOf raw, ?_⟩
        change needleForms p.2 = _
        rw [needleForms, hraw]
        exact if_neg hpos
    obtain ⟨forms, hforms⟩ := hforms
    have hiff : needles.flatMap (needleHits buf) = [] ↔
        ∀ p ∈ needles, ∀ raw, p.2.encode = some raw →
          ∀ pat ∈ [raw, petsciiForm raw, petsciiShiftedForm raw, screenCodeForm raw, raw.reverse],
            ∀ i, ¬ (i ≤ buf.length ∧ pat <+: buf.drop i) := by
      rw [List.flatMap_eq_nil_iff]
      refine forall₂_congr fun p hp => ?_
      obtain ⟨raw, hraw, -⟩ := hfit p hp
      rw [needleHits_eq_nil_iff hraw]
      constructor
      · intro h raw' hraw' pat hpat
        obtain rfl : raw = raw' := Option.some.inj (hraw.symm.trans hraw')
        obtain ⟨f, hf, rfl⟩ := List.mem_map.mp
          (show pat ∈ (formsOf raw).map Prod.snd from hpat)
        exact h f hf
      · intro h f hf
        exact h raw hraw f.2 (List.mem_map_of_mem (f := Prod.snd) hf)
    by_cases hnil : needles.flatMap (needleHits buf) = []
    · have hrun : ∃ detail, plaintextAbsent buf needles = .ok (true, detail) := by
        rw [plaintextAbsent, hfold, hnil]
        simp only [ne_eq, hforms]
        exact ⟨_, rfl⟩
      refine ⟨⟨fun _ => hiff.mp hnil, fun _ => hrun⟩, fun _ => ?_⟩
      obtain ⟨detail, hrun⟩ := hrun
      exact ⟨_, hrun⟩
    · have hrun : ∃ detail, plaintextAbsent buf needles = .ok (false, detail) := by
        rw [plaintextAbsent, hfold]
        exact ⟨_, if_pos hnil⟩
      obtain ⟨detail, hrun⟩ := hrun
      refine ⟨⟨fun ⟨d, hok⟩ => ?_, fun hnone => absurd (hiff.mpr hnone) hnil⟩, fun _ => ⟨_, hrun⟩⟩
      rw [hrun] at hok
      exact nomatch hok

/-- `KEY` in the shifted block is not absent. -/
theorem searchers_exact_key :
    ¬ ∃ detail, plaintextAbsent [0x04, 0xcb, 0xc5, 0xd9, 0x00] [("key", .text "KEY")] =
      .ok (true, detail) := by
  have hraw : (Needle.text "KEY").encode = some [0x4b, 0x45, 0x59] := rfl
  have hiff := (searchers_exact.2 [0x04, 0xcb, 0xc5, 0xd9, 0x00] [("key", .text "KEY")] (by simp)
    (by simp) (by
      intro p hp
      rw [List.mem_singleton.mp hp]
      exact ⟨_, hraw, by simp⟩)).1
  intro hok
  exact hiff.mp hok ("key", .text "KEY") List.mem_cons_self _ hraw [0xcb, 0xc5, 0xd9] (by decide) 1
    (by decide)

end C64WireGuard.Tools
