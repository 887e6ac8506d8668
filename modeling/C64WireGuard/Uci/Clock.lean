import Mathlib.Logic.Relation
import C64WireGuard.Uci.ChunkedSend

/-!
# Waiting for a clock that ticks

A wait of the adapter is bounded by the changes it sees in the clock's digit of tenths, so it ends on
every device whose clock keeps ticking, whatever the other registers read. The digit keeps changing
when no run of the device reads one and the same digit for ever (`Device.Ticks`).

`Total` collects what a sequence of calls needs: that a program ends, and which accesses it makes.
-/

namespace C64WireGuard.Uci

variable {δ α β : Type} {D : Device δ}

/-! ## Runs of the device -/

/-- An access moves the device on. -/
inductive Device.Next (D : Device δ) : Access → δ → δ → Prop
  | read (r : ReadReg) (d : δ) : D.Next (.read r (D.read r d).1) d (D.read r d).2
  | write (r : WriteReg) (v : UInt8) (d : δ) : D.Next (.write r v) d (D.write r v d)

/-- Accesses of one kind move the device on. -/
def Device.Via (D : Device δ) (P : Access → Prop) : δ → δ → Prop :=
  Relation.ReflTransGen fun d d' => ∃ a, P a ∧ D.Next a d d'

theorem Device.Via.mono {P Q : Access → Prop} (h : ∀ a, P a → Q a) {d d' : δ} (hd : D.Via P d d') :
    D.Via Q d d' :=
  hd.lift id fun _ _ ⟨a, ha, hnext⟩ => ⟨a, h a ha, hnext⟩

/-- A read of the digit of tenths. -/
def Access.Tenths : Access → Prop
  | .read .ciaTodTenths _ => True
  | _ => False

/-- From `d` on, the next read of the tenths gives the digit `t`, and leaves the device in `d'`. -/
def Device.SameDigit (D : Device δ) (t : UInt8) (d' d : δ) : Prop :=
  ∃ d₁, D.Via (fun a => ¬ a.Tenths) d d₁ ∧ D.Next (.read .ciaTodTenths t) d₁ d'

/-- **The clock keeps ticking**: from no state that the device can get to does it read one digit
over and over. -/
def Device.Ticks (D : Device δ) (d : δ) : Prop :=
  ∀ d', D.Via (fun _ => True) d d' → ∀ t, Acc (D.SameDigit t) d'

/-! ## Sequences of register values -/

/-- The device that answers from two sequences: one for the tenths, one for all other registers.
Its state counts what was used of each. -/
def sequenceDevice (values : Nat → ReadReg → UInt8) (tenths : Nat → UInt8) : Device (Nat × Nat) where
  read r n :=
    match r with
    | .ciaTodTenths => (tenths n.1, (n.1 + 1, n.2))
    | r => (values n.2 r, (n.1, n.2 + 1))
  write _ _ n := n

section Sequences

variable {values : Nat → ReadReg → UInt8} {tenths : Nat → UInt8}

theorem sequenceDevice_read {r : ReadReg} (h : r ≠ .ciaTodTenths) (n : Nat × Nat) :
    (sequenceDevice values tenths).read r n = (values n.2 r, (n.1, n.2 + 1)) := by
  cases r with
  | ciaTodTenths => exact absurd rfl h
  | _ => rfl

/-- Only a read of the tenths uses up a digit. -/
theorem sequenceDevice_next {a : Access} {n n' : Nat × Nat} (ha : ¬ a.Tenths)
    (h : (sequenceDevice values tenths).Next a n n') : n'.1 = n.1 := by
  cases h with
  | read r n =>
    have hr : r ≠ .ciaTodTenths := by
      rintro rfl
      exact ha trivial
    rw [sequenceDevice_read hr]
  | write r v n => rfl

theorem sequenceDevice_via {n n' : Nat × Nat}
    (h : (sequenceDevice values tenths).Via (fun a => ¬ a.Tenths) n n') : n'.1 = n.1 := by
  induction h with
  | refl => rfl
  | tail _ hstep ih =>
    obtain ⟨a, ha, hnext⟩ := hstep
    rw [sequenceDevice_next ha hnext, ih]

theorem sequenceDevice_sameDigit {t : UInt8} {n n' : Nat × Nat}
    (h : (sequenceDevice values tenths).SameDigit t n' n) : tenths n.1 = t ∧ n'.1 = n.1 + 1 := by
  obtain ⟨n₁, hvia, hnext⟩ := h
  rw [← sequenceDevice_via hvia]
  generalize ha : Access.read .ciaTodTenths t = a at hnext
  cases hnext with
  | read r n₁ =>
    cases ha
    exact ⟨rfl, rfl⟩
  | write r v n₁ => cases ha

/-- The digit `t` is read again and again only until another one is due. The induction is on the
reads up to that one. -/
theorem sequenceDevice_acc {t : UInt8} {k : Nat} (hk : tenths k ≠ t) {n : Nat × Nat} (hle : n.1 ≤ k) :
    Acc ((sequenceDevice values tenths).SameDigit t) n := by
  generalize hd : k - n.1 = left
  induction left generalizing n with
  | zero =>
    refine ⟨n, fun n' hsame => ?_⟩
    obtain ⟨ht, -⟩ := sequenceDevice_sameDigit hsame
    exact absurd ((congrArg tenths (by omega)).trans ht) hk
  | succ left ih =>
    refine ⟨n, fun n' hsame => ?_⟩
    obtain ⟨-, hn'⟩ := sequenceDevice_sameDigit hsame
    exact ih (by omega) (by omega)

/-- **A digit that changes infinitely often ticks**, whatever the other registers read. -/
theorem sequenceDevice_ticks (h : ∀ n, ∃ m, n ≤ m ∧ tenths (m + 1) ≠ tenths m) (n : Nat × Nat) :
    (sequenceDevice values tenths).Ticks n := by
  intro n' _ t
  obtain ⟨m, hle, hne⟩ := h n'.1
  by_cases hm : tenths m = t
  · have hm' : tenths (m + 1) ≠ t := fun ht => hne (ht.trans hm.symm)
    exact sequenceDevice_acc hm' (by omega)
  · exact sequenceDevice_acc hm hle

end Sequences

/-! ## Total programs -/

/-- What a program may rely on of the device, and which accesses it may make. -/
structure Setting (D : Device δ) where
  Holds : δ → Prop
  Allowed : Access → Prop
  closed : ∀ {d d' : δ}, Holds d → D.Via Allowed d d' → Holds d'

/-- A poll relies on nothing, and leaves the clock alone. -/
def polling (D : Device δ) : Setting D where
  Holds _ := True
  Allowed a := ¬ a.Tenths
  closed _ _ := trivial

/-- A routine relies on the clock. -/
def ticking (D : Device δ) : Setting D where
  Holds := D.Ticks
  Allowed _ := True
  closed h hvia := fun d' hvia' t => h d' (hvia.trans hvia') t

/-- The device was moved on by accesses of one kind. -/
def Touches (D : Device δ) (P : Access → Prop) (s s' : State δ) : Prop := D.Via P s.dev s'.dev

instance (P : Access → Prop) : IsPreorder (State δ) (Touches D P) where
  refl _ := .refl
  trans _ _ _ h₁ h₂ := Relation.ReflTransGen.trans h₁ h₂

/-- The program ends, and makes no other accesses than it may. -/
structure Total (K : Setting D) (p : Prog (State δ) α) : Prop where
  ends : ∀ s, K.Holds s.dev → p.Ends s
  touches : p.Within (Touches D K.Allowed)

namespace Total

variable {K : Setting D}

theorem pure (a : α) : Total K (Pure.pure a : Prog (State δ) α) :=
  ⟨fun s _ => .pure a s, .pure a⟩

theorem bind {p : Prog (State δ) α} {f : α → Prog (State δ) β} (hp : Total K p)
    (hf : ∀ a, Total K (f a)) : Total K (p >>= f) where
  ends s hs := (hp.ends s hs).bind fun a s' hret =>
    (hf a).ends s' (K.closed hs (hp.touches s a s' hret))
  touches := hp.touches.bind fun a => (hf a).touches

theorem ite {c : Prop} [Decidable c] {p q : Prog (State δ) α} (hp : Total K p) (hq : Total K q) :
    Total K (if c then p else q) where
  ends s hs := .ite (fun _ => hp.ends s hs) fun _ => hq.ends s hs
  touches := .ite hp.touches hq.touches

theorem when {c : Prop} [Decidable c] {p : Prog (State δ) Unit} (hp : Total K p) :
    Total K (Prog.when c p) := .ite hp (.pure ())

theorem lda {r : ReadReg} (h : ∀ v, K.Allowed (.read r v)) : Total K (lda D r) where
  ends s _ := .act _ s
  touches := .act fun s => .single ⟨_, h _, .read r s.dev⟩

theorem sta {r : WriteReg} {v : UInt8} (h : K.Allowed (.write r v)) : Total K (sta D r v) where
  ends s _ := .act _ s
  touches := .act fun s => .single ⟨_, h, .write r v s.dev⟩

theorem cells : Total K (cells : Prog (State δ) UciMem) where
  ends s _ := .act _ s
  touches := .act fun _ => .refl

theorem store (f : UciMem → UciMem) : Total K (store f : Prog (State δ) Unit) where
  ends s _ := .act _ s
  touches := .act fun _ => .refl

theorem giveUp : Total K (giveUp : Prog (State δ) Unit) where
  ends s _ := .act _ s
  touches := .act fun _ => .refl

end Total

/-! ## Bounded waits end -/

theorem readTenths_total : Total (ticking D) (readTenths D) :=
  (Total.lda fun _ => trivial).bind fun _ => .lda fun _ => trivial

/-- A look at the clock that shows `t` once more. -/
theorem readTenths_sameDigit {s s' : State δ} {t : UInt8} (h : (readTenths D).Returns s t s') :
    D.SameDigit t s'.dev s.dev := by
  obtain ⟨hour, s₁, h₁, h₂⟩ := Prog.returns_bind.mp h
  obtain ⟨rfl, rfl⟩ := Prog.returns_act.mp h₁
  obtain ⟨rfl, rfl⟩ := Prog.returns_act.mp h₂
  exact ⟨_, .single ⟨_, id, .read .ciaTodHour s.dev⟩, .read .ciaTodTenths _⟩

theorem waitRound_touches {budget : Nat} {poll : Prog (State δ) (Option α)}
    (hpoll : Total (polling D) poll) (i : UInt8 × Nat) :
    (waitRound D budget poll i).Within (Touches D fun _ => True) := by
  have hpoll' : poll.Within (Touches D fun _ => True) := fun s a s' h =>
    (hpoll.touches s a s' h).mono fun _ _ => trivial
  refine hpoll'.bind fun r => ?_
  cases r with
  | some a => exact .pure _
  | none =>
    refine readTenths_total.touches.bind fun t => ?_
    exact .ite (.pure _) (.ite (.pure _)
      ((Total.giveUp (K := ticking D)).touches.bind fun _ => .pure _))

theorem readTenths_ends (s : State δ) : (readTenths D).Ends s :=
  (Prog.Ends.act _ s).bind fun _ s' _ => .act _ s'

theorem Device.SameDigit.after {t : UInt8} {d₁ d₂ d₃ : δ}
    (hvia : D.Via (fun a => ¬ a.Tenths) d₁ d₂) (h : D.SameDigit t d₃ d₂) : D.SameDigit t d₃ d₁ := by
  obtain ⟨d, hvia', hnext⟩ := h
  exact ⟨d, hvia.trans hvia', hnext⟩

/-- A round that goes on saw the digit `last` again, or counted one change more. -/
theorem waitRound_next {budget : Nat} {poll : Prog (State δ) (Option α)}
    (hpoll : Total (polling D) poll) {last : UInt8} {elapsed : Nat} {j : UInt8 × Nat} {s s' : State δ}
    (h : (waitRound D budget poll (last, elapsed)).Returns s (.inl j) s') :
    (j = (last, elapsed) ∧ D.SameDigit last s'.dev s.dev) ∨
    (j.2 = elapsed + 1 ∧ elapsed + 1 < budget) := by
  obtain ⟨r, s₁, hp, hrest⟩ := Prog.returns_bind.mp h
  have hvia := hpoll.touches s r s₁ hp
  cases r with
  | some a => cases (Prog.returns_pure.mp hrest).1
  | none =>
    obtain ⟨t, s₂, hten, hrest⟩ := Prog.returns_bind.mp hrest
    simp only [Prog.returns_ite, Prog.returns_bind, Prog.returns_pure] at hrest
    rcases hrest with ⟨rfl, heq, rfl⟩ | ⟨-, ⟨hlt, heq, rfl⟩ | ⟨-, u, s₃, -, hcontra, -⟩⟩
    · cases heq
      exact Or.inl ⟨rfl, (readTenths_sameDigit hten).after hvia⟩
    · cases heq
      exact Or.inr ⟨rfl, hlt⟩
    · cases hcontra

theorem waitRound_ends {budget : Nat} {poll : Prog (State δ) (Option α)}
    (hpoll : Total (polling D) poll) (i : UInt8 × Nat) (s : State δ) :
    (waitRound D budget poll i).Ends s := by
  refine (hpoll.ends s trivial).bind fun r s₁ _ => ?_
  cases r with
  | some a => exact .pure _ s₁
  | none =>
    refine (readTenths_ends s₁).bind fun t s₂ _ => ?_
    exact .ite (fun _ => .pure _ s₂) fun _ => .ite (fun _ => .pure _ s₂) fun _ =>
      (Prog.Ends.act _ s₂).bind fun _ s₃ _ => .pure _ s₃

/-- Between two changes of the digit: the induction is on the reads that still give `last`. -/
theorem loop_waitRound_ends {budget : Nat} {poll : Prog (State δ) (Option α)}
    (hpoll : Total (polling D) poll) {last : UInt8} {elapsed : Nat} {s : State δ}
    (hs : D.Ticks s.dev)
    (hnext : ∀ t s', elapsed + 1 < budget → D.Ticks s'.dev →
      (Prog.loop (waitRound D budget poll) (t, elapsed + 1)).Ends s') :
    (Prog.loop (waitRound D budget poll) (last, elapsed)).Ends s := by
  have hacc : Acc (D.SameDigit last) s.dev := hs s.dev .refl last
  generalize hd : s.dev = d at hacc
  induction hacc generalizing s with
  | intro d _ ih =>
    subst hd
    have hends : (waitRound D budget poll (last, elapsed)).Ends s := waitRound_ends hpoll _ s
    obtain ⟨j | a, s₁, hround⟩ := hends
    · have hs₁ : D.Ticks s₁.dev :=
        (ticking D).closed hs (waitRound_touches hpoll (last, elapsed) s _ s₁ hround)
      have hrest : (Prog.loop (waitRound D budget poll) j).Ends s₁ := by
        rcases waitRound_next hpoll hround with ⟨rfl, hsame⟩ | ⟨hj, hlt⟩
        · exact ih s₁.dev hsame hs₁ rfl
        · obtain ⟨t, elapsed'⟩ := j
          obtain rfl : elapsed' = elapsed + 1 := hj
          exact hnext t s₁ hlt hs₁
      obtain ⟨a, s₂, hloop⟩ := hrest
      exact ⟨a, s₂, Prog.returns_loop.mpr (Or.inr ⟨j, s₁, hround, hloop⟩)⟩
    · exact ⟨a, s₁, Prog.returns_loop.mpr (Or.inl hround)⟩

/-- **A bounded wait ends** when the clock ticks: the induction is on the changes of the digit that
it still waits for. -/
theorem boundedWait_total {budget : Nat} {poll : Prog (State δ) (Option α)}
    (hpoll : Total (polling D) poll) : Total (ticking D) (boundedWait D budget poll) where
  ends s hs := by
    have key : ∀ left last elapsed s, budget ≤ elapsed + left → D.Ticks s.dev →
        (Prog.loop (waitRound D budget poll) (last, elapsed)).Ends s := by
      intro left
      induction left with
      | zero =>
        intro last elapsed s hleft hs
        exact loop_waitRound_ends hpoll hs fun t s' hlt _ => absurd hlt (by omega)
      | succ left ih =>
        intro last elapsed s hleft hs
        exact loop_waitRound_ends hpoll hs fun t s' _ hs' => ih t (elapsed + 1) s' (by omega) hs'
    refine (readTenths_ends s).bind fun t s' hten => ?_
    exact key budget t 0 s' (by omega) ((ticking D).closed hs (readTenths_total.touches s t s' hten))
  touches := readTenths_total.touches.bind fun t => .loop (waitRound_touches hpoll) (t, 0)

/-! ## Bounded loops end -/

/-- A loop whose rounds count up to `limit` ends. -/
theorem Total.countUp {K : Setting D} {body : Nat → Prog (State δ) (Nat ⊕ α)} (limit : Nat)
    (hbody : ∀ i, Total K (body i))
    (hnext : ∀ i s j s', (body i).Returns s (.inl j) s' → i < limit ∧ i < j) (i : Nat) :
    Total K (Prog.loop body i) where
  ends s hs := by
    refine Prog.Ends.loop (I := fun _ t => K.Holds t.dev)
      (r := InvImage (· < ·) fun x => limit - x.1) (fun i t ht => (hbody i).ends t ht) ?_
      ((InvImage.wf _ Nat.lt_wfRel.wf).apply _) hs
    intro i t j t' ht hround
    refine ⟨K.closed ht ((hbody i).touches t _ t' hround), ?_⟩
    have := hnext i t j t' hround
    show limit - j < limit - i
    omega
  touches := .loop (fun i => (hbody i).touches) i

end C64WireGuard.Uci
