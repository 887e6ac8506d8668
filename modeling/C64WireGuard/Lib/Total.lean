import C64WireGuard.Lib.Prog

/-!
# Total correctness

`Achieves p s Q`: from `s` the program comes to an answer, and what it answers and leaves satisfies
`Q`. There is one rule for each way to build a program; the rule for loops takes an invariant and a
relation that every round descends in.
-/

namespace C64WireGuard

/-- Where every step from a good state leads to a good state of less weight, no state has steps
without end. -/
theorem acc_of_weight {α : Type} {r : α → α → Prop} {I : α → Prop} (w : α → Nat)
    (hstep : ∀ x y, I x → r y x → I y ∧ w y < w x) {x : α} (hx : I x) : Acc r x := by
  induction hw : w x using Nat.strong_induction_on generalizing x with
  | _ n ih =>
    refine ⟨x, fun y hy => ?_⟩
    obtain ⟨hI, hlt⟩ := hstep x y hx hy
    exact ih (w y) (hw ▸ hlt) hI rfl

namespace Prog

variable {σ α β ι : Type}

/-- The program comes to an answer that satisfies `Q`. -/
def Achieves (p : Prog σ α) (s : σ) (Q : α → σ → Prop) : Prop := ∃ a s', p.Returns s a s' ∧ Q a s'

namespace Achieves

variable {p q : Prog σ α} {s : σ} {Q R : α → σ → Prop}

/-- What is known of the answer may be used in what it is shown to satisfy. -/
theorem imp (h : Achieves p s Q) (hR : ∀ a s', p.Returns s a s' → Q a s' → R a s') :
    Achieves p s R := by
  obtain ⟨a, s', hret, hQ⟩ := h
  exact ⟨a, s', hret, hR a s' hret hQ⟩

theorem pure (a : α) (h : Q a s) : Achieves (Pure.pure a : Prog σ α) s Q :=
  ⟨a, s, returns_pure.mpr ⟨rfl, rfl⟩, h⟩

theorem act {f : σ → α × σ} (h : Q (f s).1 (f s).2) : Achieves (Prog.act f) s Q :=
  ⟨_, _, returns_act.mpr ⟨rfl, rfl⟩, h⟩

theorem bind {f : α → Prog σ β} {S : β → σ → Prop} (hp : Achieves p s Q)
    (hf : ∀ a s', Q a s' → Achieves (f a) s' S) : Achieves (p >>= f) s S := by
  obtain ⟨a, s₁, hret, hQ⟩ := hp
  obtain ⟨b, s₂, hret', hS⟩ := hf a s₁ hQ
  exact ⟨b, s₂, returns_bind.mpr ⟨a, s₁, hret, hret'⟩, hS⟩

theorem ite {c : Prop} [Decidable c] (hp : c → Achieves p s Q) (hq : ¬ c → Achieves q s Q) :
    Achieves (if c then p else q) s Q := by
  by_cases hc : c
  · rw [if_pos hc]
    exact hp hc
  · rw [if_neg hc]
    exact hq hc

/-- **The rule for loops.** -/
theorem loop {body : ι → Prog σ (ι ⊕ α)} {I : ι → σ → Prop} {r : ι × σ → ι × σ → Prop}
    (hround : ∀ i s, I i s → Achieves (body i) s fun x s' =>
      x.elim (fun j => I j s' ∧ r (j, s') (i, s)) fun a => Q a s')
    {i : ι} (hacc : Acc r (i, s)) (hI : I i s) : Achieves (Prog.loop body i) s Q := by
  generalize hx : (i, s) = x at hacc
  induction hacc generalizing i s with
  | intro x _ ih =>
    subst hx
    obtain ⟨j | a, s₁, hbody, hQ⟩ := hround i s hI
    · obtain ⟨hI', hr⟩ := hQ
      obtain ⟨a, s₂, hloop, hQ⟩ := ih (j, s₁) hr hI' rfl
      exact ⟨a, s₂, returns_loop.mpr (Or.inr ⟨j, s₁, hbody, hloop⟩), hQ⟩
    · exact ⟨a, s₁, returns_loop.mpr (Or.inl hbody), hQ⟩

end Achieves

end Prog

end C64WireGuard
