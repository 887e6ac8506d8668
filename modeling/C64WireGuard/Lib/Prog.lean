import Mathlib.Order.Defs.Unbundled
import Mathlib.Order.Lattice

/-!
# Programs that may run forever

A program over states `σ` runs for a number of steps of fuel and either answers or is still
running; an answer stays the same with more fuel. `Returns p s a s'` says that some amount of fuel
is enough, so that no statement about a program names one. A loop is unrolled by
`Prog.returns_loop`; its invariants come from `Returns.loop_rule` and its termination from
`Ends.loop`.
-/

namespace C64WireGuard

/-- A program, with the proof that fuel only decides whether it answers, not what. -/
structure Prog (σ α : Type) where
  run : Nat → σ → Option (α × σ)
  mono : ∀ {n m : Nat} {s : σ} {r : α × σ}, n ≤ m → run n s = some r → run m s = some r

namespace Prog

variable {σ α β ι : Type}

/-- Answer at once. -/
def pure (a : α) : Prog σ α where
  run _ s := some (a, s)
  mono _ h := h

/-- One program, and then the one that its answer selects. -/
def bind (p : Prog σ α) (f : α → Prog σ β) : Prog σ β where
  run n s := (p.run n s).bind fun r => (f r.1).run n r.2
  mono hle h := by
    rw [Option.bind_eq_some_iff] at h ⊢
    obtain ⟨r, hp, hf⟩ := h
    exact ⟨r, p.mono hle hp, (f r.1).mono hle hf⟩

instance : Monad (Prog σ) where
  pure := Prog.pure
  bind := Prog.bind

/-- A step on the state. -/
def act (f : σ → α × σ) : Prog σ α where
  run _ s := some (f s)
  mono _ h := h

/-- A program, run when a condition holds. -/
def when (c : Prop) [Decidable c] (p : Prog σ Unit) : Prog σ Unit := if c then p else pure ()

/-- At most `k` rounds of a loop, each with fuel `n`. -/
def rounds (body : ι → Prog σ (ι ⊕ α)) (n : Nat) : Nat → ι → σ → Option (α × σ)
  | 0, _, _ => none
  | k + 1, i, s =>
    match (body i).run n s with
    | none => none
    | some (.inl j, s') => rounds body n k j s'
    | some (.inr a, s') => some (a, s')

theorem rounds_mono (body : ι → Prog σ (ι ⊕ α)) {n m : Nat} (hnm : n ≤ m) {k l : Nat} (hkl : k ≤ l)
    {i : ι} {s : σ} {r : α × σ} (h : rounds body n k i s = some r) : rounds body m l i s = some r := by
  induction k generalizing l i s with
  | zero => cases h
  | succ k ih =>
    obtain ⟨l, rfl⟩ : ∃ l', l = l' + 1 := ⟨l - 1, by omega⟩
    unfold rounds at h ⊢
    cases hrun : (body i).run n s with
    | none => simp [hrun] at h
    | some r =>
      rw [(body i).mono hnm hrun]
      obtain ⟨j | a, s'⟩ := r
      · rw [hrun] at h
        exact ih (by omega) h
      · rw [hrun] at h
        exact h

/-- Run `body` from `i`, and again from every `i` it answers, until it answers an `α`. -/
def loop (body : ι → Prog σ (ι ⊕ α)) (i : ι) : Prog σ α where
  run n := rounds body n n i
  mono hle h := rounds_mono body hle hle h

/-! ## Answers -/

/-- The program answers `a` from `s`, and leaves the state `s'`. -/
def Returns (p : Prog σ α) (s : σ) (a : α) (s' : σ) : Prop :=
  ∃ n, p.run n s = some (a, s')

/-- What a run with enough fuel gives. -/
theorem returns_get {p : Prog σ α} {n : Nat} {s : σ} (h : (p.run n s).isSome) :
    p.Returns s ((p.run n s).get h).1 ((p.run n s).get h).2 := ⟨n, (Option.some_get h).symm⟩

/-- The program comes to an answer. -/
def Ends (p : Prog σ α) (s : σ) : Prop :=
  ∃ a s', p.Returns s a s'

/-- A program has one answer. -/
theorem Returns.unique {p : Prog σ α} {s : σ} {a b : α} {s₁ s₂ : σ} (h₁ : p.Returns s a s₁)
    (h₂ : p.Returns s b s₂) : a = b ∧ s₁ = s₂ := by
  obtain ⟨n, h₁⟩ := h₁
  obtain ⟨m, h₂⟩ := h₂
  have h := (p.mono (le_max_left n m) h₁).symm.trans (p.mono (le_max_right n m) h₂)
  rwa [Option.some.injEq, Prod.mk.injEq] at h

@[simp] theorem returns_pure {a b : α} {s s' : σ} :
    (Pure.pure a : Prog σ α).Returns s b s' ↔ b = a ∧ s' = s := by
  constructor
  · rintro ⟨n, h⟩
    cases h
    exact ⟨rfl, rfl⟩
  · rintro ⟨rfl, rfl⟩
    exact ⟨0, rfl⟩

@[simp] theorem returns_bind {p : Prog σ α} {f : α → Prog σ β} {s s' : σ} {b : β} :
    (p >>= f).Returns s b s' ↔ ∃ a s₁, p.Returns s a s₁ ∧ (f a).Returns s₁ b s' := by
  constructor
  · rintro ⟨n, h⟩
    obtain ⟨r, hp, hf⟩ := Option.bind_eq_some_iff.mp h
    exact ⟨r.1, r.2, ⟨n, hp⟩, n, hf⟩
  · rintro ⟨a, s₁, ⟨n, hp⟩, m, hf⟩
    exact ⟨max n m, Option.bind_eq_some_iff.mpr ⟨(a, s₁), p.mono (le_max_left n m) hp,
      (f a).mono (le_max_right n m) hf⟩⟩

@[simp] theorem returns_act {f : σ → α × σ} {s s' : σ} {a : α} :
    (act f).Returns s a s' ↔ a = (f s).1 ∧ s' = (f s).2 := by
  constructor
  · rintro ⟨n, h⟩
    rw [← Prod.mk.injEq]
    exact (Option.some.inj h).symm
  · rintro ⟨rfl, rfl⟩
    exact ⟨0, rfl⟩

@[simp] theorem returns_ite {c : Prop} [Decidable c] {p q : Prog σ α} {s s' : σ} {a : α} :
    (if c then p else q).Returns s a s' ↔ (c ∧ p.Returns s a s') ∨ (¬ c ∧ q.Returns s a s') := by
  by_cases hc : c <;> simp [hc]

@[simp] theorem returns_when {c : Prop} [Decidable c] {p : Prog σ Unit} {s s' : σ} {u : Unit} :
    (when c p).Returns s u s' ↔ (c ∧ p.Returns s u s') ∨ (¬ c ∧ s' = s) := by
  refine returns_ite.trans (or_congr_right (and_congr_right fun _ => ?_))
  exact returns_pure.trans (and_iff_right rfl)

/-- **A loop goes on after each round that answers an `ι`**. -/
theorem returns_loop {body : ι → Prog σ (ι ⊕ α)} {i : ι} {s s' : σ} {a : α} :
    (loop body i).Returns s a s' ↔
      (body i).Returns s (.inr a) s' ∨
      ∃ j s₁, (body i).Returns s (.inl j) s₁ ∧ (loop body j).Returns s₁ a s' := by
  constructor
  · rintro ⟨n, h⟩
    cases n with
    | zero => cases h
    | succ n =>
      cases hrun : (body i).run (n + 1) s with
      | none => simp [loop, rounds, hrun] at h
      | some r =>
        obtain ⟨j | b, s₁⟩ := r
        · simp only [loop, rounds, hrun] at h
          exact Or.inr ⟨j, s₁, ⟨n + 1, hrun⟩, n + 1, rounds_mono body le_rfl (by omega) h⟩
        · simp only [loop, rounds, hrun, Option.some.injEq, Prod.mk.injEq] at h
          obtain ⟨rfl, rfl⟩ := h
          exact Or.inl ⟨n + 1, hrun⟩
  · rintro (⟨n, h⟩ | ⟨j, s₁, ⟨n, hb⟩, m, hl⟩)
    · refine ⟨n + 1, ?_⟩
      simp only [loop, rounds, (body i).mono n.le_succ h]
    · refine ⟨max n m + 1, ?_⟩
      simp only [loop, rounds, (body i).mono (by omega : n ≤ max n m + 1) hb]
      exact rounds_mono body (by omega) (by omega) hl

/-- **The invariant rule**: what every round keeps holds where the loop ends. -/
theorem Returns.loop_rule {body : ι → Prog σ (ι ⊕ α)} {I : ι → σ → Prop} {Q : α → σ → Prop}
    (hstep : ∀ i s j s', I i s → (body i).Returns s (.inl j) s' → I j s')
    (hdone : ∀ i s a s', I i s → (body i).Returns s (.inr a) s' → Q a s')
    {i : ι} {s s' : σ} {a : α} (h : (loop body i).Returns s a s') (hI : I i s) : Q a s' := by
  obtain ⟨n, h⟩ := h
  have key : ∀ k i s, I i s → rounds body n k i s = some (a, s') → Q a s' := by
    intro k
    induction k with
    | zero => intro i s _ h; cases h
    | succ k ih =>
      intro i s hI h
      unfold rounds at h
      cases hrun : (body i).run n s with
      | none => simp [hrun] at h
      | some r =>
        rw [hrun] at h
        obtain ⟨j | b, s₁⟩ := r
        · exact ih j s₁ (hstep i s j s₁ hI ⟨n, hrun⟩) h
        · simp only [Option.some.injEq, Prod.mk.injEq] at h
          obtain ⟨rfl, rfl⟩ := h
          exact hdone i s b s₁ hI ⟨n, hrun⟩
  exact key n i s hI h

/-! ## What a program keeps -/

/-- Wherever the program answers, the state it leaves is related to the one it started from. -/
def Within (R : σ → σ → Prop) (p : Prog σ α) : Prop :=
  ∀ s a s', p.Returns s a s' → R s s'

section Within

variable {R : σ → σ → Prop} [IsPreorder σ R]

theorem Within.pure (a : α) : Within R (Pure.pure a : Prog σ α) := by
  intro s b s' h
  obtain ⟨-, rfl⟩ := returns_pure.mp h
  exact refl_of R _

theorem Within.bind {p : Prog σ α} {f : α → Prog σ β} (hp : Within R p) (hf : ∀ a, Within R (f a)) :
    Within R (p >>= f) := by
  intro s b s' h
  obtain ⟨a, s₁, hp', hf'⟩ := returns_bind.mp h
  exact trans_of R (hp s a s₁ hp') (hf a s₁ b s' hf')

omit [IsPreorder σ R] in
theorem Within.ite {c : Prop} [Decidable c] {p q : Prog σ α} (hp : Within R p) (hq : Within R q) :
    Within R (if c then p else q) := by
  by_cases hc : c
  · rwa [if_pos hc]
  · rwa [if_neg hc]

theorem Within.when {c : Prop} [Decidable c] {p : Prog σ Unit} (hp : Within R p) :
    Within R (Prog.when c p) := .ite hp (.pure ())

omit [IsPreorder σ R] in
theorem Within.act {f : σ → α × σ} (hf : ∀ s, R s (f s).2) : Within R (Prog.act f) := by
  intro s a s' h
  obtain ⟨-, rfl⟩ := returns_act.mp h
  exact hf s

theorem Within.loop {body : ι → Prog σ (ι ⊕ α)} (h : ∀ i, Within R (body i)) (i : ι) :
    Within R (Prog.loop body i) := by
  intro s a s' hret
  exact hret.loop_rule (I := fun _ t => R s t) (Q := fun _ t => R s t)
    (fun i t j t' hI hb => trans_of R hI (h i t _ t' hb))
    (fun i t a t' hI hb => trans_of R hI (h i t _ t' hb)) (refl_of R s)

end Within

/-! ## Termination -/

theorem Ends.pure (a : α) (s : σ) : (Pure.pure a : Prog σ α).Ends s :=
  ⟨a, s, returns_pure.mpr ⟨rfl, rfl⟩⟩

theorem Ends.act (f : σ → α × σ) (s : σ) : (Prog.act f).Ends s :=
  ⟨_, _, returns_act.mpr ⟨rfl, rfl⟩⟩

theorem Ends.bind {p : Prog σ α} {f : α → Prog σ β} {s : σ} (hp : p.Ends s)
    (hf : ∀ a s', p.Returns s a s' → (f a).Ends s') : (p >>= f).Ends s := by
  obtain ⟨a, s₁, hp⟩ := hp
  obtain ⟨b, s₂, hf⟩ := hf a s₁ hp
  exact ⟨b, s₂, returns_bind.mpr ⟨a, s₁, hp, hf⟩⟩

theorem Ends.ite {c : Prop} [Decidable c] {p q : Prog σ α} {s : σ} (hp : c → p.Ends s)
    (hq : ¬ c → q.Ends s) : (if c then p else q).Ends s := by
  by_cases hc : c
  · rw [if_pos hc]
    exact hp hc
  · rw [if_neg hc]
    exact hq hc

theorem Ends.when {c : Prop} [Decidable c] {p : Prog σ Unit} {s : σ} (hp : c → p.Ends s) :
    (Prog.when c p).Ends s := .ite hp fun _ => .pure () s

/-- **The variant rule**: a loop ends when each round that goes on descends in `r`. -/
theorem Ends.loop {body : ι → Prog σ (ι ⊕ α)} {I : ι → σ → Prop} {r : ι × σ → ι × σ → Prop}
    (hends : ∀ i s, I i s → (body i).Ends s)
    (hstep : ∀ i s j s', I i s → (body i).Returns s (.inl j) s' → I j s' ∧ r (j, s') (i, s))
    {i : ι} {s : σ} (hacc : Acc r (i, s)) (hI : I i s) : (Prog.loop body i).Ends s := by
  generalize hx : (i, s) = x at hacc
  induction hacc generalizing i s with
  | intro x _ ih =>
    subst hx
    obtain ⟨j | a, s₁, hbody⟩ := hends i s hI
    · obtain ⟨hI', hr⟩ := hstep i s j s₁ hI hbody
      obtain ⟨a, s₂, hloop⟩ := ih (j, s₁) hr hI' rfl
      exact ⟨a, s₂, returns_loop.mpr (Or.inr ⟨j, s₁, hbody, hloop⟩)⟩
    · exact ⟨a, s₁, returns_loop.mpr (Or.inl hbody)⟩

end Prog

end C64WireGuard
