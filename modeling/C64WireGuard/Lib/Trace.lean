import Mathlib.Data.List.Basic

/-!
# Logs of labelled transitions

A protocol is a relation `step s e t`: in state `s` the event `e` is allowed and leads to `t`. Logs
are kept newest first, so the head of a log is what happened last.

Two rules do all the work: `Follows.append_inv` cuts a log at any point, and `Follows.invariant`
carries a property of the protocol's state along it.
-/

/-- A log that `step` allows, from `s` to `t`. -/
inductive Follows {ε α : Type} (step : α → ε → α → Prop) (s : α) : List ε → α → Prop
  | nil : Follows step s [] s
  | cons {e : ε} {log : List ε} {t u : α} :
      Follows step s log t → step t e u → Follows step s (e :: log) u

namespace Follows

variable {ε α : Type} {step : α → ε → α → Prop} {s t u : α}

/-- A log is followed up to every point, and from there on. -/
theorem append_inv {newer older : List ε} (h : Follows step s (newer ++ older) t) :
    ∃ u, Follows step s older u ∧ Follows step u newer t := by
  induction newer generalizing t with
  | nil => exact ⟨t, h, .nil⟩
  | cons e newer ih =>
      obtain ⟨_, he⟩ | ⟨h, he⟩ := h
      obtain ⟨v, hv, hn⟩ := ih h
      exact ⟨v, hv, .cons hn he⟩

/-- The state before the newest event. -/
theorem cons_inv {e : ε} {log : List ε} (h : Follows step s (e :: log) t) :
    ∃ u, Follows step s log u ∧ step u e t := by
  cases h with
  | cons h he => exact ⟨_, h, he⟩

/-- The state after the event between two parts of a log, and the one before it. -/
theorem split {newer older : List ε} {e : ε} (h : Follows step s (newer ++ e :: older) t) :
    ∃ u v, Follows step s older u ∧ step u e v ∧ Follows step v newer t := by
  obtain ⟨v, hv, hn⟩ := h.append_inv
  obtain ⟨u, hu, he⟩ := hv.cons_inv
  exact ⟨u, v, hu, he, hn⟩

/-- What every allowed event of a kind preserves, a log of such events preserves. -/
theorem invariant {P : α → Prop} {Q : ε → Prop}
    (hstep : ∀ {s e t}, P s → Q e → step s e t → P t) {log : List ε} (hP : P s)
    (hQ : ∀ e ∈ log, Q e) (h : Follows step s log t) : P t := by
  induction h with
  | nil => exact hP
  | cons _ he ih =>
      exact hstep (ih fun e' he' => hQ e' (List.mem_cons_of_mem _ he')) (hQ _ List.mem_cons_self) he

/-- The oldest event of a log that is not empty. -/
theorem oldest {log : List ε} (hne : log ≠ []) (h : Follows step s log t) :
    ∃ newer e u, log = newer ++ [e] ∧ step s e u ∧ Follows step u newer t := by
  obtain ⟨newer, e, rfl⟩ := (List.eq_nil_or_concat log).resolve_left hne
  rw [List.concat_eq_append] at h ⊢
  obtain ⟨u, v, hu, he, hn⟩ := h.split
  cases hu
  exact ⟨newer, e, v, rfl, he, hn⟩

end Follows
