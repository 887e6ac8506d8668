import Mathlib.Data.List.Perm.Basic
import Mathlib.Data.List.Nodup
import Mathlib.Data.List.Induction

/-!
# Grouping by key

A dictionary that keeps its keys in the order of their first entry, filled from a list: one entry a
key (`keys_collect`), made of the elements with this key and of no others (`gather_of_mem_collect`),
and not changed by elements with other keys (`filter_collect`).
-/

namespace Grouping

section Firsts

variable {κ : Type} [DecidableEq κ]

theorem eraseDups_concat (l : List κ) (a : κ) :
    (l ++ [a]).eraseDups = if a ∈ l then l.eraseDups else l.eraseDups ++ [a] := by
  rw [List.eraseDups_append]
  by_cases h : a ∈ l
  · rw [if_pos h, List.cons_removeAll]
    simp [h]
  · rw [if_neg h, List.cons_removeAll]
    simp [h, List.eraseDups_cons]

/-- `eraseDups` keeps the first of equal elements, in order. -/
theorem pairwise_eraseDups (l : List κ) :
    l.eraseDups.Pairwise fun a b => l.idxOf a < l.idxOf b := by
  induction l using List.reverseRecOn with
  | nil => exact List.Pairwise.nil
  | append_singleton l a ih =>
    have hold : l.eraseDups.Pairwise fun x y => (l ++ [a]).idxOf x < (l ++ [a]).idxOf y := by
      refine List.Pairwise.imp_of_mem (fun hx hy hlt => ?_) ih
      rwa [List.idxOf_append_of_mem (List.mem_eraseDups.mp hx),
        List.idxOf_append_of_mem (List.mem_eraseDups.mp hy)]
    rw [eraseDups_concat]
    by_cases h : a ∈ l
    · rwa [if_pos h]
    · rw [if_neg h]
      refine List.pairwise_append.mpr ⟨hold, List.pairwise_singleton _ _, fun x hx y hy => ?_⟩
      obtain rfl := List.mem_singleton.mp hy
      have hx : x ∈ l := List.mem_eraseDups.mp hx
      rw [List.idxOf_append_of_mem hx, List.idxOf_append_of_notMem h]
      exact Nat.lt_of_lt_of_le (List.idxOf_lt_length_of_mem hx) (Nat.le_add_right _ _)

theorem nodup_eraseDups (l : List κ) : l.eraseDups.Nodup :=
  (pairwise_eraseDups l).imp fun h heq => absurd h (by rw [heq]; exact Nat.lt_irrefl _)

end Firsts

section Collect

variable {α κ γ : Type} [DecidableEq κ]

/-- Change the entry of a key; a new one goes behind the others. -/
def update (k : κ) (new : γ) (f : γ → γ) : List (κ × γ) → List (κ × γ)
  | [] => [(k, f new)]
  | e :: es => if e.1 = k then (k, f e.2) :: es else e :: update k new f es

theorem keys_update (k : κ) (new : γ) (f : γ → γ) (es : List (κ × γ)) :
    (update k new f es).map Prod.fst =
      if k ∈ es.map Prod.fst then es.map Prod.fst else es.map Prod.fst ++ [k] := by
  induction es with
  | nil => rfl
  | cons e es ih =>
    rw [update]
    by_cases h : e.1 = k
    · rw [if_pos h, if_pos (by simp [h])]
      simp [h]
    · have h' : ¬ k = e.1 := fun heq => h heq.symm
      rw [if_neg h, List.map_cons, ih, List.map_cons]
      by_cases hk : k ∈ es.map Prod.fst
      · rw [if_pos hk, if_pos (List.mem_cons_of_mem _ hk)]
      · rw [if_neg hk, if_neg fun hin => (List.mem_cons.mp hin).elim h' hk]
        rfl

/-- An entry after an update: the one of the key, or another one, as it was. -/
theorem mem_update {k : κ} {new : γ} {f : γ → γ} {es : List (κ × γ)}
    (hnodup : (es.map Prod.fst).Nodup) {e : κ × γ} (he : e ∈ update k new f es) :
    (e.1 = k ∧ ((k ∉ es.map Prod.fst ∧ e.2 = f new) ∨ ∃ g, (k, g) ∈ es ∧ e.2 = f g)) ∨
      (e.1 ≠ k ∧ e ∈ es) := by
  induction es with
  | nil =>
    rw [update, List.mem_singleton] at he
    subst he
    exact .inl ⟨rfl, .inl ⟨List.not_mem_nil, rfl⟩⟩
  | cons x es ih =>
    obtain ⟨hx, hnodup⟩ := List.nodup_cons.mp hnodup
    rw [update] at he
    by_cases h : x.1 = k
    · rw [if_pos h] at he
      rcases List.mem_cons.mp he with rfl | he
      · exact .inl ⟨rfl, .inr ⟨x.2, by rw [← h]; exact List.mem_cons_self, rfl⟩⟩
      · refine .inr ⟨fun heq => hx ?_, List.mem_cons_of_mem _ he⟩
        rw [h, ← heq]
        exact List.mem_map_of_mem he
    · rw [if_neg h] at he
      rcases List.mem_cons.mp he with rfl | he
      · exact .inr ⟨h, List.mem_cons_self⟩
      · rcases ih hnodup he with ⟨hk, ⟨hnew, hv⟩ | ⟨g, hg, hv⟩⟩ | ⟨hk, hmem⟩
        · refine .inl ⟨hk, .inl ⟨fun hin => ?_, hv⟩⟩
          rcases List.mem_cons.mp hin with heq | hin
          · exact h heq.symm
          · exact hnew hin
        · exact .inl ⟨hk, .inr ⟨g, List.mem_cons_of_mem _ hg, hv⟩⟩
        · exact .inr ⟨hk, List.mem_cons_of_mem _ hmem⟩

theorem filter_update (p : κ → Bool) (k : κ) (new : γ) (f : γ → γ) (es : List (κ × γ)) :
    (update k new f es).filter (fun e => p e.1) =
      if p k then update k new f (es.filter fun e => p e.1) else es.filter fun e => p e.1 := by
  induction es with
  | nil => cases hp : p k <;> simp [update, hp]
  | cons e es ih =>
    rw [update]
    by_cases h : e.1 = k
    · subst h
      rw [if_pos rfl]
      cases hp : p e.1 <;> simp [update, hp]
    · rw [if_neg h, List.filter_cons, ih]
      cases hp : p k <;> cases he : p e.1 <;> simp [update, he, h]

variable (key : α → κ) (new : α → γ) (add : α → γ → γ)

/-- The dictionary of a list: every element goes into the entry of its key. -/
def collect (xs : List α) : List (κ × γ) :=
  xs.foldl (fun es x => update (key x) (new x) (add x) es) []

/-- What the elements of one key make: the first of them starts the entry. -/
def gather : List α → Option γ
  | [] => none
  | x :: xs => some ((x :: xs).foldl (fun g y => add y g) (new x))

theorem gather_concat_nil (x : α) : gather new add [x] = some (add x (new x)) := rfl

theorem gather_concat {xs : List α} {g : γ} (h : gather new add xs = some g) (x : α) :
    gather new add (xs ++ [x]) = some (add x g) := by
  cases xs with
  | nil => exact nomatch h
  | cons y ys =>
    obtain rfl := Option.some.inj h
    simp [gather, List.foldl_append]

theorem collect_concat (xs : List α) (x : α) :
    collect key new add (xs ++ [x]) = update (key x) (new x) (add x) (collect key new add xs) := by
  rw [collect, List.foldl_append]
  rfl

/-- **One entry a key**, in the order in which the keys appear first. -/
theorem keys_collect (xs : List α) :
    (collect key new add xs).map Prod.fst = (xs.map key).eraseDups := by
  induction xs using List.reverseRecOn with
  | nil => rfl
  | append_singleton xs x ih =>
    rw [collect_concat, keys_update, ih, List.map_append, List.map_singleton, eraseDups_concat]
    simp only [List.mem_eraseDups]

/-- **An entry is made of the elements with its key.** -/
theorem gather_of_mem_collect {xs : List α} {e : κ × γ} (he : e ∈ collect key new add xs) :
    gather new add (xs.filter fun x => key x = e.1) = some e.2 := by
  induction xs using List.reverseRecOn generalizing e with
  | nil => exact absurd he List.not_mem_nil
  | append_singleton xs x ih =>
    have hkeys := keys_collect key new add xs
    rw [collect_concat] at he
    rw [List.filter_append]
    rcases mem_update (by rw [hkeys]; exact nodup_eraseDups _) he with
      ⟨hk, ⟨hnew, hv⟩ | ⟨g, hg, hv⟩⟩ | ⟨hk, hmem⟩
    · have hnone : xs.filter (fun y => key y = e.1) = [] := by
        rw [List.filter_eq_nil_iff]
        intro y hy hky
        refine hnew ?_
        rw [hkeys, List.mem_eraseDups, ← hk, ← of_decide_eq_true hky]
        exact List.mem_map_of_mem hy
      rw [hnone, List.nil_append, List.filter_cons_of_pos (by simp [hk]), List.filter_nil,
        gather_concat_nil, hv]
    · have hold := ih hg
      rw [List.filter_cons_of_pos (by simp [hk]), List.filter_nil, hk, hv]
      exact gather_concat new add hold x
    · have hskip : [x].filter (fun y => key y = e.1) = [] := by
        rw [List.filter_cons_of_neg (by simpa using fun h => hk h.symm), List.filter_nil]
      rw [hskip, List.append_nil]
      exact ih hmem

/-- **Keys do not touch each other's entries.** -/
theorem filter_collect (p : κ → Bool) (xs : List α) :
    (collect key new add xs).filter (fun e => p e.1) =
      collect key new add (xs.filter fun x => p (key x)) := by
  induction xs using List.reverseRecOn with
  | nil => rfl
  | append_singleton xs x ih =>
    rw [collect_concat, filter_update, ih, List.filter_append]
    cases hp : p (key x)
    · simp [hp]
    · simp only [hp, if_true, List.filter_cons_of_pos, List.filter_nil]
      rw [collect_concat]

end Collect

/-- Of lists joined, the elements with the key of one of them are this list. -/
theorem filter_flatMap_key {α β κ : Type} [DecidableEq κ] {key : α → κ} {f : β → List α} {k : β → κ}
    {l : List β} (hkey : ∀ b ∈ l, ∀ x ∈ f b, key x = k b) (hnodup : (l.map k).Nodup) {b : β}
    (hb : b ∈ l) : (l.flatMap f).filter (fun x => key x = k b) = f b := by
  induction l with
  | nil => exact absurd hb List.not_mem_nil
  | cons c l ih =>
    obtain ⟨hc, hnodup⟩ := List.nodup_cons.mp hnodup
    have hl := fun d hd => hkey d (List.mem_cons_of_mem c hd)
    rw [List.flatMap_cons, List.filter_append]
    rcases List.mem_cons.mp hb with rfl | hb
    · have hself : (f b).filter (fun x => key x = k b) = f b := by
        rw [List.filter_eq_self]
        exact fun x hx => decide_eq_true (hkey b List.mem_cons_self x hx)
      have hothers : (l.flatMap f).filter (fun x => key x = k b) = [] := by
        rw [List.filter_eq_nil_iff]
        intro x hx heq
        obtain ⟨d, hd, hx⟩ := List.mem_flatMap.mp hx
        refine hc ?_
        rw [← of_decide_eq_true heq, hl d hd x hx]
        exact List.mem_map_of_mem hd
      rw [hself, hothers, List.append_nil]
    · have hnone : (f c).filter (fun x => key x = k b) = [] := by
        rw [List.filter_eq_nil_iff]
        intro x hx heq
        refine hc ?_
        rw [← hkey c List.mem_cons_self x hx, of_decide_eq_true heq]
        exact List.mem_map_of_mem hb
      rw [hnone, List.nil_append]
      exact ih hl hnodup hb

theorem findIdx_congr {α : Type} {p q : α → Bool} {l : List α} (h : ∀ x ∈ l, p x = q x) :
    l.findIdx p = l.findIdx q := by
  induction l with
  | nil => rfl
  | cons x l ih =>
    rw [List.findIdx_cons, List.findIdx_cons, h x List.mem_cons_self,
      ih fun y hy => h y (List.mem_cons_of_mem x hy)]

/-- A list can be put into the order of its keys. -/
theorem exists_perm_map_eq {β κ : Type} (f : β → κ) {l : List β} {ks : List κ}
    (h : ks.Perm (l.map f)) : ∃ l' : List β, l'.Perm l ∧ l'.map f = ks := by
  have hmap : List.Forall₂ (fun k b => k = f b) (l.map f) l :=
    List.forall₂_map_left_iff.mpr (List.forall₂_same.mpr fun _ _ => rfl)
  obtain ⟨l', hl', hperm⟩ := List.perm_comp_forall₂ h hmap
  have heq := List.forall₂_map_right_iff.mpr hl'
  exact ⟨l', hperm, (List.forall₂_eq_eq_eq ▸ heq : ks = l'.map f).symm⟩

end Grouping
