import Mathlib.Data.List.Nodup
import Mathlib.Tactic.Linarith

/-!
# Replay windows on a ring

An anti-replay window keeps the highest counter accepted so far and a ring of flags, one per
residue of the counter. What varies between implementations is the `Policy`: which old counters
the ring still answers for, and which positions are wiped when the window moves up.

* `run_nodup` — a policy that never wipes the flag of a counter it still answers for accepts no
  counter twice;
* `run_exact` — a policy that wipes every position the window moves onto flags only counters that
  were accepted, so a fresh counter within reach is never turned away.

The two are independent: the first needs no wiping at all, the second holds even when too much is
wiped.
-/

namespace ReplayWindow

/-- The highest counter accepted, and the flag at each ring position. -/
structure State where
  top : Nat
  seen : Nat → Bool

/-- The state of a window that has seen nothing. -/
def State.init : State := { top := 0, seen := fun _ => false }

/-- What an implementation is free to choose. -/
structure Policy where
  /-- The number of ring positions. -/
  size : Nat
  /-- `reach top c`: with highest counter `top`, the ring still answers for `c`. -/
  reach : Nat → Nat → Bool
  /-- `cleared top c p`: moving up from `top` to `c` wipes position `p`. -/
  cleared : Nat → Nat → Nat → Bool

variable (P : Policy)

/-- The check made before a packet is authenticated. -/
def admits (s : State) (c : Nat) : Bool :=
  decide (s.top < c) || (P.reach s.top c && !s.seen (c % P.size))

/-- The update made after it is. -/
def accept (s : State) (c : Nat) : State where
  top := max s.top c
  seen := fun p =>
    p == c % P.size || (s.seen p && !(decide (s.top < c) && P.cleared s.top c p))

theorem accept_of_lt {s : State} {c : Nat} (h : s.top < c) :
    accept P s c =
      { top := c, seen := fun p => p == c % P.size || (s.seen p && !P.cleared s.top c p) } := by
  simp [accept, h, h.le]

theorem accept_of_le {s : State} {c : Nat} (h : c ≤ s.top) :
    accept P s c = { top := s.top, seen := fun p => p == c % P.size || s.seen p } := by
  simp [accept, h, Nat.not_lt.mpr h]

/-- Present counters one after the other: those accepted, in order, and the final state. -/
def run : State → List Nat → List Nat × State
  | s, [] => ([], s)
  | s, c :: cs =>
      if admits P s c then (c :: (run (accept P s c) cs).1, (run (accept P s c) cs).2)
      else run s cs

theorem run_append (s : State) (cs ds : List Nat) :
    run P s (cs ++ ds) =
      ((run P s cs).1 ++ (run P (run P s cs).2 ds).1, (run P (run P s cs).2 ds).2) := by
  induction cs generalizing s with
  | nil => rfl
  | cons c cs ih =>
      simp only [List.cons_append, run]
      split
      · rw [ih]
        rfl
      · rw [ih]

theorem mem_of_mem_run {s : State} {cs : List Nat} {k : Nat} (h : k ∈ (run P s cs).1) : k ∈ cs := by
  induction cs generalizing s with
  | nil => exact h
  | cons c cs ih =>
      simp only [run] at h
      split at h
      · rcases List.mem_cons.mp h with rfl | h
        · exact List.mem_cons_self
        · exact List.mem_cons_of_mem _ (ih h)
      · exact List.mem_cons_of_mem _ (ih h)

/-! ## Safety -/

/-- Reach only shrinks as the window moves up. -/
def Policy.Shrinking : Prop :=
  ∀ top c k, top < c → k ≤ top → P.reach c k = true → P.reach top k = true

/-- The update for `c` does not wipe the flag of a counter still within reach after it. -/
def Keeps (s : State) (c : Nat) : Prop :=
  s.top < c → ∀ k ≤ s.top, P.reach c k = true → s.seen (k % P.size) = true →
    P.cleared s.top c (k % P.size) = false

/-- Every counter in `past` is at most the top, and flagged while it is within reach. -/
structure Remembers (past : List Nat) (s : State) : Prop where
  le_top : ∀ k ∈ past, k ≤ s.top
  flagged : ∀ k ∈ past, P.reach s.top k = true → s.seen (k % P.size) = true

variable {P}

theorem Remembers.nil (s : State) : Remembers P [] s := by
  constructor <;> simp

/-- A counter that was accepted before is turned away. -/
theorem Remembers.not_mem {past : List Nat} {s : State} {c : Nat} (h : Remembers P past s)
    (hc : admits P s c = true) : c ∉ past := by
  intro hmem
  have hle := h.le_top c hmem
  simp only [admits, Bool.or_eq_true, decide_eq_true_eq, Bool.and_eq_true, Bool.not_eq_true'] at hc
  rcases hc with hlt | ⟨hreach, hseen⟩
  · omega
  · rw [h.flagged c hmem hreach] at hseen
    cases hseen

theorem Remembers.accept {past : List Nat} {s : State} {c : Nat} (hP : P.Shrinking)
    (h : Remembers P past s) (hkeep : Keeps P s c) :
    Remembers P (c :: past) (accept P s c) := by
  constructor
  · intro k hk
    rcases List.mem_cons.mp hk with rfl | hk
    · exact Nat.le_max_right _ _
    · exact Nat.le_trans (h.le_top k hk) (Nat.le_max_left _ _)
  · intro k hk hreach
    simp only [ReplayWindow.accept, Bool.or_eq_true, beq_iff_eq, Bool.and_eq_true,
      Bool.not_eq_true', Bool.and_eq_false_iff, decide_eq_false_iff_not] at hreach ⊢
    rcases List.mem_cons.mp hk with rfl | hk
    · exact Or.inl rfl
    · right
      have hle := h.le_top k hk
      by_cases hlt : s.top < c
      · rw [Nat.max_eq_right hlt.le] at hreach
        have hseen := h.flagged k hk (hP _ _ _ hlt hle hreach)
        exact ⟨hseen, Or.inr (hkeep hlt k hle hreach hseen)⟩
      · rw [Nat.max_eq_left (by omega)] at hreach
        exact ⟨h.flagged k hk hreach, Or.inl hlt⟩

/-- Every step of a run keeps the flags it must. -/
def Steady (P : Policy) : State → List Nat → Prop
  | _, [] => True
  | s, c :: cs =>
      if admits P s c then Keeps P s c ∧ Steady P (ReplayWindow.accept P s c) cs else Steady P s cs

theorem Remembers.run_nodup {past : List Nat} {s : State} (hP : P.Shrinking)
    (h : Remembers P past s) (hpast : past.Nodup) {cs : List Nat} (hcs : Steady P s cs) :
    (past.reverse ++ (run P s cs).1).Nodup := by
  induction cs generalizing past s with
  | nil => simpa [run] using hpast
  | cons c cs ih =>
      simp only [run, Steady] at hcs ⊢
      split
      · next hadm =>
          rw [if_pos hadm] at hcs
          have hnew : (c :: past).Nodup := List.nodup_cons.mpr ⟨h.not_mem hadm, hpast⟩
          have hgo := ih (h.accept hP hcs.1) hnew hcs.2
          rwa [List.reverse_cons, List.append_assoc] at hgo
      · next hadm =>
          rw [if_neg hadm] at hcs
          exact ih h hpast hcs

/-- **No counter is accepted twice** in a run whose steps keep the flags they must. -/
theorem run_nodup (hP : P.Shrinking) {s : State} {cs : List Nat} (hcs : Steady P s cs) :
    (run P s cs).1.Nodup := by
  simpa using (Remembers.nil s).run_nodup hP List.nodup_nil hcs

/-! ## Completeness -/

/-- Distinct counters within reach have distinct positions, and moving the window up wipes every
position it moves onto. -/
structure Policy.Exposing (P : Policy) : Prop where
  injective : ∀ top k k', P.reach top k = true → P.reach top k' = true →
    k % P.size = k' % P.size → k = k'
  top_mem : ∀ top, P.reach top top = true
  wipes : ∀ top c k, top < k → k < c → P.reach c k = true → P.cleared top c (k % P.size) = true
  le_top : ∀ top k, P.reach top k = true → k ≤ top

/-- A flag within reach belongs to an accepted counter. -/
def Exact (P : Policy) (past : List Nat) (s : State) : Prop :=
  ∀ k, P.reach s.top k = true → s.seen (k % P.size) = true → k ∈ past

theorem Exact.init : Exact P [] State.init := by
  intro k _ hseen
  cases hseen

theorem Exact.accept {past : List Nat} {s : State} {c : Nat} (hP : P.Shrinking)
    (hE : P.Exposing) (h : Exact P past s) (hadm : admits P s c = true) :
    Exact P (c :: past) (accept P s c) := by
  intro k hreach hseen
  simp only [ReplayWindow.accept, Bool.or_eq_true, beq_iff_eq, Bool.and_eq_true,
    Bool.not_eq_true', Bool.and_eq_false_iff, decide_eq_false_iff_not] at hreach hseen
  by_cases hlt : s.top < c
  · rw [Nat.max_eq_right hlt.le] at hreach
    rcases hseen with hpos | ⟨hseen, hkept⟩
    · rw [hE.injective c k c hreach (hE.top_mem c) hpos]
      exact List.mem_cons_self
    · have hkept := hkept.resolve_left (not_not.mpr hlt)
      have hkc := hE.le_top c k hreach
      by_cases hk : k ≤ s.top
      · exact List.mem_cons_of_mem _ (h k (hP _ _ _ hlt hk hreach) hseen)
      · rcases Nat.lt_or_ge k c with hkc' | hkc'
        · rw [hE.wipes s.top c k (by omega) hkc' hreach] at hkept
          cases hkept
        · rw [Nat.le_antisymm hkc hkc']
          exact List.mem_cons_self
  · rw [Nat.max_eq_left (by omega)] at hreach
    have hreachc : P.reach s.top c = true := by
      simp only [admits, Bool.or_eq_true, decide_eq_true_eq, Bool.and_eq_true] at hadm
      exact (hadm.resolve_left hlt).1
    rcases hseen with hpos | ⟨hseen, -⟩
    · rw [hE.injective s.top k c hreach hreachc hpos]
      exact List.mem_cons_self
    · exact List.mem_cons_of_mem _ (h k hreach hseen)

theorem Exact.run {past : List Nat} {s : State} (hP : P.Shrinking) (hE : P.Exposing)
    (h : Exact P past s) (cs : List Nat) :
    Exact P ((ReplayWindow.run P s cs).1.reverse ++ past) (ReplayWindow.run P s cs).2 := by
  induction cs generalizing past s with
  | nil => simpa [ReplayWindow.run] using h
  | cons c cs ih =>
      simp only [ReplayWindow.run]
      split
      · next hadm =>
          have hgo := ih (h.accept hP hE hadm)
          simpa using hgo
      · exact ih h

/-- **A fresh counter within reach is admitted**, whatever was wiped along the way. -/
theorem run_exact (hP : P.Shrinking) (hE : P.Exposing) (cs : List Nat) {c : Nat}
    (hfresh : c ∉ (run P State.init cs).1) :
    admits P (run P State.init cs).2 c =
      (decide ((run P State.init cs).2.top < c) || P.reach (run P State.init cs).2.top c) := by
  have hexact := Exact.run hP hE Exact.init cs
  simp only [admits]
  by_cases hreach : P.reach (run P State.init cs).2.top c = true
  · have hseen : (run P State.init cs).2.seen (c % P.size) = false := by
      by_contra hne
      have hmem := hexact c hreach (by simpa using hne)
      simp [hfresh] at hmem
    simp [hreach, hseen]
  · simp [hreach]

/-- The top of a run is the greatest counter accepted in it. -/
theorem run_top (cs : List Nat) (s : State) :
    (∀ k ∈ (run P s cs).1, k ≤ (run P s cs).2.top) ∧
      s.top ≤ (run P s cs).2.top ∧
      ((run P s cs).2.top = s.top ∨ (run P s cs).2.top ∈ (run P s cs).1) := by
  induction cs generalizing s with
  | nil => simp [run]
  | cons c cs ih =>
      simp only [run]
      split
      · obtain ⟨hle, hge, htop⟩ := ih (ReplayWindow.accept P s c)
        have hmax : (ReplayWindow.accept P s c).top = max s.top c := rfl
        rw [hmax] at hge htop
        dsimp only
        refine ⟨?_, by omega, ?_⟩
        · intro k hk
          rcases List.mem_cons.mp hk with rfl | hk
          · omega
          · exact hle k hk
        · rcases htop with htop | htop
          · rcases Nat.le_total c s.top with h | h
            · left
              omega
            · right
              rw [htop, Nat.max_eq_right h]
              exact List.mem_cons_self
          · exact Or.inr (List.mem_cons_of_mem _ htop)
      · exact ih s

end ReplayWindow
