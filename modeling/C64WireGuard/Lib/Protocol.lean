import C64WireGuard.Lib.Prog

/-!
# Programs that keep to a protocol

A protocol is a relation `step x e y` again, and a word is followed along a `Path`, oldest letter
first. Where the state of a program records what it does (`Record`), `Obeys G p G'` says that from
every `x` in `G` the protocol allows what `p` does, and gets to some `y` in `G'`. One rule for each way
to build a program carries the statement from the single accesses to a whole routine, and
`Path.joint` from the protocol to a machine that takes the same steps.
-/

namespace C64WireGuard

variable {σ ε γ κ α β ι : Type}

/-! ## Paths -/

/-- The steps of a word, one after the other. -/
def Path (step : γ → ε → γ → Prop) : γ → List ε → γ → Prop
  | x, [], y => x = y
  | x, e :: es, y => ∃ z, step x e z ∧ Path step z es y

namespace Path

variable {step : γ → ε → γ → Prop} {x y z : γ} {e : ε} {es fs : List ε}

theorem nil (x : γ) : Path step x [] x := rfl

theorem single (h : step x e y) : Path step x [e] y := ⟨y, h, rfl⟩

theorem trans (h : Path step x es y) (h' : Path step y fs z) : Path step x (es ++ fs) z := by
  induction es generalizing x with
  | nil =>
    obtain rfl : x = y := h
    exact h'
  | cons e es ih =>
    obtain ⟨w, hstep, hes⟩ := h
    exact ⟨w, hstep, ih hes⟩

theorem append_iff : Path step x (es ++ fs) z ↔ ∃ y, Path step x es y ∧ Path step y fs z := by
  induction es generalizing x with
  | nil =>
    constructor
    · intro h
      exact ⟨x, rfl, h⟩
    · rintro ⟨y, rfl, h⟩
      exact h
  | cons e es ih =>
    constructor
    · rintro ⟨w, hstep, hes⟩
      obtain ⟨y, hy, hz⟩ := ih.mp hes
      exact ⟨y, ⟨w, hstep, hy⟩, hz⟩
    · rintro ⟨y, ⟨w, hstep, hy⟩, hz⟩
      exact ⟨w, hstep, ih.mpr ⟨y, hy, hz⟩⟩

/-- **The invariant rule** for paths: what a state says of the word that has led to it. -/
theorem invariant {I : γ → List ε → Prop}
    (hstep : ∀ ds x e y, I x ds → step x e y → I y (ds ++ [e])) {ds : List ε} (hI : I x ds)
    (h : Path step x es y) : I y (ds ++ es) := by
  induction es generalizing ds x with
  | nil =>
    obtain rfl : x = y := h
    rwa [List.append_nil]
  | cons e es ih =>
    obtain ⟨w, hw, hes⟩ := h
    have hnext := ih (hstep ds x e w hI hw) hes
    rwa [List.append_assoc, List.singleton_append] at hnext

/-- **Two systems take the steps of one word**: a relation between them, the word so far included,
that each step keeps. -/
theorem joint {step' : κ → ε → κ → Prop} {R : List ε → γ → κ → Prop}
    (hstep : ∀ ds x e y u v, R ds x u → step x e y → step' u e v → R (ds ++ [e]) y v)
    {ds : List ε} {u v : κ} (hR : R ds x u) (h : Path step x es y) (h' : Path step' u es v) :
    R (ds ++ es) y v := by
  induction es generalizing ds x u with
  | nil =>
    obtain rfl : x = y := h
    obtain rfl : u = v := h'
    rwa [List.append_nil]
  | cons e es ih =>
    obtain ⟨x', hx, hes⟩ := h
    obtain ⟨u', hu, hes'⟩ := h'
    have hnext := ih (hstep ds x e x' u u' hR hx hu) hes hes'
    rwa [List.append_assoc, List.singleton_append] at hnext

end Path

/-! ## Programs -/

/-- What a state records of the steps that led to it. -/
structure Record (σ ε : Type) where
  Moves : σ → List ε → σ → Prop
  nil : ∀ s, Moves s [] s
  append : ∀ {s t u : σ} {es fs : List ε}, Moves s es t → Moves t fs u → Moves s (es ++ fs) u

namespace Prog

/-- Wherever the program answers, the protocol allows what it has done. -/
def Obeys (K : Record σ ε) (step : γ → ε → γ → Prop) (G : γ → Prop) (p : Prog σ α)
    (G' : α → γ → Prop) : Prop :=
  ∀ s a s', p.Returns s a s' →
    ∃ es, K.Moves s es s' ∧ ∀ x, G x → ∃ y, Path step x es y ∧ G' a y

namespace Obeys

variable {K : Record σ ε} {step : γ → ε → γ → Prop} {G : γ → Prop} {G' H : α → γ → Prop}
  {p q : Prog σ α}

theorem pure (a : α) (h : ∀ x, G x → G' a x) : Obeys K step G (Pure.pure a : Prog σ α) G' := by
  intro s b s' hret
  obtain ⟨rfl, rfl⟩ := returns_pure.mp hret
  exact ⟨[], K.nil _, fun x hx => ⟨x, .nil x, h x hx⟩⟩

theorem bind {f : α → Prog σ β} {F : β → γ → Prop} (hp : Obeys K step G p H)
    (hf : ∀ a, Obeys K step (H a) (f a) F) : Obeys K step G (p >>= f) F := by
  intro s b s' hret
  obtain ⟨a, s₁, h₁, h₂⟩ := returns_bind.mp hret
  obtain ⟨es, hes, hpath⟩ := hp s a s₁ h₁
  obtain ⟨fs, hfs, hpath'⟩ := hf a s₁ b s' h₂
  refine ⟨es ++ fs, K.append hes hfs, ?_⟩
  intro x hx
  obtain ⟨y, hy, hH⟩ := hpath x hx
  obtain ⟨z, hz, hF⟩ := hpath' y hH
  exact ⟨z, hy.trans hz, hF⟩

theorem ite {c : Prop} [Decidable c] (hp : c → Obeys K step G p H) (hq : ¬ c → Obeys K step G q H) :
    Obeys K step G (if c then p else q) H := by
  by_cases hc : c
  · rw [if_pos hc]
    exact hp hc
  · rw [if_neg hc]
    exact hq hc

theorem when {c : Prop} [Decidable c] {p : Prog σ Unit} {H : Unit → γ → Prop}
    (hp : c → Obeys K step G p H) (hskip : ¬ c → ∀ x, G x → H () x) :
    Obeys K step G (Prog.when c p) H :=
  .ite hp fun hc => .pure () (hskip hc)

/-- The consequence rule. -/
theorem weaken {F : γ → Prop} (h : Obeys K step G p G') (hF : ∀ x, F x → G x)
    (hH : ∀ a x, G' a x → H a x) : Obeys K step F p H := by
  intro s a s' hret
  obtain ⟨es, hes, hpath⟩ := h s a s' hret
  refine ⟨es, hes, fun x hx => ?_⟩
  obtain ⟨y, hy, hG'⟩ := hpath x (hF x hx)
  exact ⟨y, hy, hH a y hG'⟩

/-- **The invariant rule** for loops. -/
theorem loop {body : ι → Prog σ (ι ⊕ α)} {I : ι → γ → Prop}
    (h : ∀ i, Obeys K step (I i) (body i) (Sum.elim I H)) (i : ι) :
    Obeys K step (I i) (Prog.loop body i) H := by
  intro s a s' hret
  have hkeep : ∀ r j t t', (∃ es, K.Moves s es t ∧ ∀ x, I i x → ∃ y, Path step x es y ∧ I j y) →
      (body j).Returns t r t' →
      ∃ es, K.Moves s es t' ∧ ∀ x, I i x → ∃ y, Path step x es y ∧ Sum.elim I H r y := by
    rintro r j t t' ⟨es, hes, hpath⟩ hround
    obtain ⟨fs, hfs, hpath'⟩ := h j t r t' hround
    refine ⟨es ++ fs, K.append hes hfs, fun x hx => ?_⟩
    obtain ⟨y, hy, hI⟩ := hpath x hx
    obtain ⟨z, hz, hr⟩ := hpath' y hI
    exact ⟨z, hy.trans hz, hr⟩
  exact hret.loop_rule
    (I := fun j t => ∃ es, K.Moves s es t ∧ ∀ x, I i x → ∃ y, Path step x es y ∧ I j y)
    (Q := fun b t => ∃ es, K.Moves s es t ∧ ∀ x, I i x → ∃ y, Path step x es y ∧ H b y)
    (fun j t k t' hI hround => hkeep (.inl k) j t t' hI hround)
    (fun j t b t' hI hround => hkeep (.inr b) j t t' hI hround)
    ⟨[], K.nil s, fun x hx => ⟨x, .nil x, hx⟩⟩

/-- One access, which the protocol allows. -/
theorem act {f : σ → α × σ} {e : α → ε} (hmoves : ∀ s, K.Moves s [e (f s).1] (f s).2)
    (h : ∀ a x, G x → ∃ y, step x (e a) y ∧ H a y) : Obeys K step G (Prog.act f) H := by
  intro s a s' hret
  obtain ⟨rfl, rfl⟩ := returns_act.mp hret
  refine ⟨_, hmoves s, fun x hx => ?_⟩
  obtain ⟨y, hy, hH⟩ := h (f s).1 x hx
  exact ⟨y, .single hy, hH⟩

end Obeys

end Prog

end C64WireGuard
