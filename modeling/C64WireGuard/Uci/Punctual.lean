import C64WireGuard.Lib.Total
import C64WireGuard.Uci.Gate
import C64WireGuard.Uci.PollEnds

/-!
# A firmware that keeps its times

The waits of the adapter are generous: the firmware accepts a command, and stages a block, well within
the budget of the wait for it (`Device.Punctual`). A wait for either then comes to its end with what
it waits for, and never gives up. The digit of tenths is read modulo 10 and at any distance, so what
counts is that a change seen is a tenth passed, at least.
-/

namespace C64WireGuard.Uci

open Prog

variable {δ α : Type} {D : Device δ} {reply : List UInt8 → List Block → Prop} {spec : δ → Ultimate}
  {s : State δ}

/-! ## Looks -/

namespace Ultimate

variable {u u' : Ultimate} {n : Nat}

/-- Time has passed, and the firmware has taken one step or none. -/
def Moved (reply : List UInt8 → List Block → Prop) (u u' : Ultimate) : Prop :=
  ∃ n, u' = u.after n ∨ Works reply (u.after n) u'

/-- A look at the interface leaves it as it is. -/
theorem Step.moved {a : Access} (h : Step reply a u u') (ha : a.Poll) : Moved reply u u' := by
  obtain ⟨n, u₁, hwork, hrest⟩ := h
  refine ⟨n, ?_⟩
  cases a with
  | read r v =>
    obtain ⟨-, rfl⟩ := hrest
    cases r with
    | uciStatus => exact hwork
    | ciaTodHour => exact hwork
    | ciaTodTenths => exact hwork
    | uciRespData => exact ha.elim
    | uciStatusData => exact ha.elim
    | uciId => exact ha.elim
    | ciaCrb => exact ha.elim
  | write r v => exact ha.elim
  | expired => exact ha.elim

theorem Moved.clock_le (h : Moved reply u u') : u.clock ≤ u'.clock := by
  obtain ⟨n, rfl | hwork⟩ := h
  · exact Nat.le_add_right _ n
  · have hclock : u'.clock = u.clock + n := by cases hwork <;> rfl
    omega

/-- The digit is the clock's. -/
theorem Step.tenths {v : UInt8} (h : Step reply (.read .ciaTodTenths v) u u') :
    v = UInt8.ofNat (u'.clock % 10) := by
  obtain ⟨n, u₁, -, hreads, rfl⟩ := h
  exact hreads

/-- What a read of the status may show. -/
theorem Step.torn {v : UInt8} (h : Step reply (.read .uciStatus v) u u') :
    ∃ n b, (u' = u.after n ∨ Works reply (u.after n) u') ∧
      StatusBits.Torn (u.after n).status u'.status b ∧ v = b.byte := by
  obtain ⟨n, u₁, hwork, ⟨b, htorn, rfl⟩, rfl⟩ := h
  exact ⟨n, b, hwork, htorn, rfl⟩

end Ultimate

/-! ## Promptness -/

/-- A look while something is waited for. -/
def Device.Looking (D : Device δ) (W : δ → Prop) (d' d : δ) : Prop :=
  W d ∧ ∃ a, a.Poll ∧ D.Next a d d'

/-- **The firmware keeps its times**, in every state that the device can get to: nobody looks for ever
at a command that is not accepted, or at a block that is not staged; neither takes as long as the
wait for it, less the tick that it may begin with; and the accept of a block is taken notice of
before a Data More block that follows it is drained. -/
structure Device.Punctual (D : Device δ) (spec : δ → Ultimate) (d : δ) : Prop where
  accepts : ∀ d', D.Via (fun _ => True) d d' → Acc (D.Looking fun x => (spec x).cmdBusy = true) d'
  stages : ∀ d', D.Via (fun _ => True) d d' → Acc (D.Looking fun x => (spec x).asked = true) d'
  acceptTenths : ∀ d', D.Via (fun _ => True) d d' →
    (spec d').acceptTenths + 1 < uciWaitIdleBudgetTenths
  stageTenths : ∀ d', D.Via (fun _ => True) d d' →
    (spec d').stageTenths + 1 < uciRespWaitBudgetTenths
  noticed : ∀ d', D.Via (fun _ => True) d d' → (spec d').state = .dataMore → (spec d').data = [] →
    (spec d').dataAcc = false

theorem Device.Punctual.via {d d' : δ} (h : D.Punctual spec d) (hvia : D.Via (fun _ => True) d d') :
    D.Punctual spec d' where
  accepts x hx := h.accepts x (hvia.trans hx)
  stages x hx := h.stages x (hvia.trans hx)
  acceptTenths x hx := h.acceptTenths x (hvia.trans hx)
  stageTenths x hx := h.stageTenths x (hvia.trans hx)
  noticed x hx := h.noticed x (hvia.trans hx)

theorem Device.Punctual.next {a : Access} {d d' : δ} (h : D.Punctual spec d) (hnext : D.Next a d d') :
    D.Punctual spec d' := h.via (.single ⟨a, trivial, hnext⟩)

/-! ## Accesses that come to an end -/

theorem lda_achieves (r : ReadReg) (s : State δ) :
    Achieves (lda D r) s fun v s' => D.Next (.read r v) s.dev s'.dev ∧ s'.mem = s.mem :=
  .act ⟨.read r s.dev, rfl⟩

theorem sta_achieves (r : WriteReg) (v : UInt8) (s : State δ) :
    Achieves (sta D r v) s fun _ s' => D.Next (.write r v) s.dev s'.dev ∧ s'.mem = s.mem :=
  .act ⟨.write r v s.dev, rfl⟩

theorem cells_achieves (s : State δ) : Achieves cells s fun m s' => m = s.mem ∧ s = s' := .act ⟨rfl, rfl⟩

theorem store_achieves (f : UciMem → UciMem) (s : State δ) :
    Achieves (store f) s fun _ s' => s'.dev = s.dev ∧ s'.mem = f s.mem := .act ⟨rfl, rfl⟩

theorem giveUp_achieves (s : State δ) :
    Achieves giveUp s fun _ s' => s'.dev = s.dev ∧ s'.mem = s.mem := .act ⟨rfl, rfl⟩

theorem waitTimeout_achieves (s : State δ) :
    Achieves (waitTimeout : Prog (State δ) Bool) s fun c s' => c = true ∧ s'.dev = s.dev :=
  (store_achieves _ s).bind fun _ _ h => .pure _ ⟨rfl, h.1⟩

theorem readTenths_achieves (s : State δ) :
    Achieves (readTenths D) s fun v s' => (readTenths D).Returns s v s' := by
  obtain ⟨v, s', h⟩ := readTenths_ends (D := D) s
  exact ⟨v, s', h, h⟩

/-! ## Bounded waits -/

/-- A digit that has changed is a tenth later, at least. -/
theorem clock_lt_of_digit {c c' : Nat} (hle : c ≤ c')
    (h : UInt8.ofNat (c' % 10) ≠ UInt8.ofNat (c % 10)) : c < c' := by
  rcases Nat.lt_or_ge c c' with hlt | hge
  · exact hlt
  · obtain rfl : c = c' := by omega
    exact absurd rfl h

theorem readTenths_clock (hD : Implements D reply spec) {s s' : State δ} {v : UInt8}
    (h : (readTenths D).Returns s v s') :
    v = UInt8.ofNat ((spec s'.dev).clock % 10) ∧ (spec s.dev).clock ≤ (spec s'.dev).clock := by
  obtain ⟨hour, s₁, h₁, h₂⟩ := Prog.returns_bind.mp h
  have hstep₁ := hD.step (lda_next h₁)
  have hstep₂ := hD.step (lda_next h₂)
  exact ⟨hstep₂.tenths,
    (hstep₁.moved (poll_hour hour)).clock_le.trans (hstep₂.moved (poll_tenths v)).clock_le⟩

/-- **A bounded wait** whose polls descend comes to an end. When it gives up, its budget less one
tick had passed before the last poll. -/
theorem boundedWait_achieves (hD : Implements D reply spec) (budget : Nat)
    (poll : Prog (State δ) (Option α)) {J : State δ → Prop} {Q : α → State δ → Prop}
    {r : State δ → State δ → Prop} (hJ : J s)
    (htod : ∀ t v t', J t → (readTenths D).Returns t v t' → J t')
    (hpoll : ∀ t, J t → Achieves poll t fun o t' =>
      (o = none → J t' ∧ (spec t.dev).clock ≤ (spec t'.dev).clock ∧
        ∀ v t'', (readTenths D).Returns t' v t'' → r t'' t) ∧
      ∀ a, o = some a → Q a t')
    (hacc : ∀ t, J t → Acc r t) :
    Achieves (boundedWait D budget poll) s fun o s' =>
      (o = none → ∃ t t', J t ∧ poll.Returns t none t' ∧
        (spec s.dev).clock + (budget - 1) ≤ (spec t.dev).clock ∧
        ∃ t'', J t'' ∧ giveUp.Returns t'' () s') ∧
      ∀ a, o = some a → Q a s' := by
  refine (readTenths_achieves s).bind fun v s₁ h₁ => ?_
  obtain ⟨hdigit, hclock⟩ := readTenths_clock hD h₁
  refine Achieves.loop (r := InvImage r Prod.snd) (I := fun i t => J t ∧
    ∃ c, i.1 = UInt8.ofNat (c % 10) ∧ (spec s.dev).clock + i.2 ≤ c ∧ c ≤ (spec t.dev).clock) ?_
    (InvImage.accessible _ (hacc s₁ (htod s v s₁ hJ h₁))) ⟨htod s v s₁ hJ h₁, _, hdigit, hclock, le_rfl⟩
  rintro ⟨last, elapsed⟩ t ⟨hJt, c, hlast, helapsed, hc⟩
  refine Achieves.bind ((hpoll t hJt).imp fun o t' hret hpolled => (⟨hret, hpolled⟩ :
    poll.Returns t o t' ∧ _)) fun o t' ⟨hret, hnone, hsome⟩ => ?_
  cases o with
  | some a =>
    refine .pure _ ⟨fun hcontra => ?_, fun b hb => ?_⟩
    · cases hcontra
    · cases hb
      exact hsome a rfl
  | none =>
    obtain ⟨hJt', hmono, hr⟩ := hnone rfl
    refine (readTenths_achieves t').bind fun w t'' h₂ => ?_
    obtain ⟨hw, hmono'⟩ := readTenths_clock hD h₂
    have hJt'' := htod t' w t'' hJt' h₂
    refine .ite (fun _ => ?_) fun hne => .ite (fun hlt => ?_) fun hge => ?_
    · exact .pure _ ⟨⟨hJt'', c, hlast, helapsed, by omega⟩, hr w t'' h₂⟩
    · have htick : c < (spec t''.dev).clock := by
        refine clock_lt_of_digit (by omega) ?_
        rw [← hw, ← hlast]
        exact hne
      exact .pure _ ⟨⟨hJt'', _, hw, by dsimp only at *; omega, le_rfl⟩, hr w t'' h₂⟩
    · refine (Achieves.act (Q := fun u s' => giveUp.Returns t'' u s') ?_).bind fun u s' hgive =>
        .pure _ ⟨fun _ => ⟨t, t', hJt, hret, ?_, t'', hJt'', hgive⟩, fun b hb => ?_⟩
      · exact Prog.returns_act.mpr ⟨rfl, rfl⟩
      · dsimp only at helapsed
        omega
      · cases hb

/-- A bounded wait whose first poll answers. -/
theorem boundedWait_at_once (budget : Nat) (poll : Prog (State δ) (Option α))
    {Q : α → State δ → Prop} (hpoll : ∀ v t, (readTenths D).Returns s v t →
      Achieves poll t fun o t' => ∃ a, o = some a ∧ Q a t') :
    Achieves (boundedWait D budget poll) s fun o s' => ∃ a, o = some a ∧ Q a s' := by
  refine (readTenths_achieves s).bind fun v s₁ h₁ => ?_
  refine Achieves.loop (I := fun _ t => t = s₁) (r := fun _ _ => False) ?_
    ⟨_, fun _ hfalse => hfalse.elim⟩ rfl
  intro i t ht
  subst ht
  refine (hpoll v t h₁).bind fun o t' ⟨a, ho, hQ⟩ => ?_
  subst ho
  exact .pure _ ⟨a, rfl, hQ⟩

/-- Something that the firmware is about to do, and that a status tells of. -/
structure Awaits (reply : List UInt8 → List Block → Prop) (done : UInt8 → Bool) (W E : Ultimate → Prop)
    (timer : Ultimate → Nat) : Prop where
  wait : ∀ {n : Nat} {u u' : Ultimate}, W u → (u' = u.after n ∨ Ultimate.Works reply (u.after n) u') →
    E u' ∨ (W u' ∧ u'.clock + timer u ≤ timer u' + u.clock)
  stays : ∀ {n : Nat} {u u' : Ultimate}, E u → (u' = u.after n ∨ Ultimate.Works reply (u.after n) u') →
    E u'
  shown : ∀ {n : Nat} {u u' : Ultimate} {b : StatusBits}, E u →
    (u' = u.after n ∨ Ultimate.Works reply (u.after n) u') →
    StatusBits.Torn (u.after n).status u'.status b → done b.byte = true
  seen : ∀ {n : Nat} {u u' : Ultimate} {b : StatusBits}, W u →
    (u' = u.after n ∨ Ultimate.Works reply (u.after n) u') →
    StatusBits.Torn (u.after n).status u'.status b → done b.byte = true → E u'

/-- It has been done, or the timer of the wait for it runs with the clock since `u₀`. -/
def OnTime (W E : Ultimate → Prop) (timer : Ultimate → Nat) (u₀ u : Ultimate) : Prop :=
  E u ∨ W u ∧ u.clock + timer u₀ ≤ timer u + u₀.clock

/-- A round of the wait that goes on: it is done now, or has been looked for in vain. -/
def Closer (D : Device δ) (spec : δ → Ultimate) (W E : Ultimate → Prop) (t' t : State δ) : Prop :=
  W (spec t.dev) ∧ ¬ E (spec t.dev) ∧
    (E (spec t'.dev) ∨ Relation.TransGen (D.Looking fun x => W (spec x)) t'.dev t.dev)

/-- When nobody looks for ever, no wait goes on for ever. -/
theorem Closer.acc {W E : Ultimate → Prop} {t : State δ}
    (h : Acc (D.Looking fun x => W (spec x)) t.dev) : Acc (Closer D spec W E) t := by
  have key : ∀ d, Acc (Relation.TransGen (D.Looking fun x => W (spec x))) d →
      ∀ t : State δ, t.dev = d → Acc (Closer D spec W E) t := by
    intro d hd
    induction hd with
    | intro d _ ih =>
      rintro t rfl
      refine ⟨t, fun t' hcloser => ?_⟩
      rcases hcloser.2.2 with hE | htrans
      · exact ⟨t', fun t'' hcloser' => absurd hE hcloser'.2.1⟩
      · exact ih t'.dev htrans t' rfl
  exact key t.dev h.transGen t rfl

theorem readTenths_looks {t t' : State δ} {v : UInt8} (h : (readTenths D).Returns t v t') :
    ∃ d hour, D.Next (.read .ciaTodHour hour) t.dev d ∧ D.Next (.read .ciaTodTenths v) d t'.dev ∧
      t'.mem = t.mem := by
  obtain ⟨hour, t₁, h₁, h₂⟩ := Prog.returns_bind.mp h
  exact ⟨t₁.dev, hour, lda_next h₁, lda_next h₂, (lda_spec h₂).2.trans (lda_spec h₁).2⟩

/-- What the firmware keeps up on its own, a look at the clock keeps up. -/
theorem readTenths_keeps (hD : Implements D reply spec) {P : Ultimate → Prop}
    (hP : ∀ n u u', P u → (u' = u.after n ∨ Ultimate.Works reply (u.after n) u') → P u')
    {t t' : State δ} {v : UInt8} (h : (readTenths D).Returns t v t') (ht : P (spec t.dev))
    (hs : D.Punctual spec t.dev) :
    P (spec t'.dev) ∧ D.Punctual spec t'.dev ∧ t'.mem = t.mem := by
  obtain ⟨d, hour, hnext₁, hnext₂, hmem⟩ := readTenths_looks h
  obtain ⟨n₁, hmoved₁⟩ := (hD.step hnext₁).moved (poll_hour hour)
  obtain ⟨n₂, hmoved₂⟩ := (hD.step hnext₂).moved (poll_tenths v)
  exact ⟨hP n₂ _ _ (hP n₁ _ _ ht hmoved₁) hmoved₂, (hs.next hnext₁).next hnext₂, hmem⟩

section Awaits

variable {done : UInt8 → Bool} {W E : Ultimate → Prop} {timer : Ultimate → Nat} {u₀ : Ultimate}

theorem Awaits.look (h : Awaits reply done W E timer) (hD : Implements D reply spec) {a : Access}
    {d d' : δ} (ha : a.Poll) (hnext : D.Next a d d') (hon : OnTime W E timer u₀ (spec d)) :
    OnTime W E timer u₀ (spec d') := by
  obtain ⟨n, hmoved⟩ := (hD.step hnext).moved ha
  rcases hon with hE | ⟨hW, hclock⟩
  · exact Or.inl (h.stays hE hmoved)
  · refine (h.wait hW hmoved).imp id fun hW' => ⟨hW'.1, ?_⟩
    have := hW'.2
    omega

/-- A look at the status that ends the wait, or does not. -/
theorem Awaits.poll (h : Awaits reply done W E timer) (hD : Implements D reply spec) {v : UInt8}
    {d d' : δ} (hnext : D.Next (.read .uciStatus v) d d') (hon : OnTime W E timer u₀ (spec d)) :
    (done v = true → E (spec d')) ∧ (done v ≠ true → ¬ E (spec d)) := by
  obtain ⟨n, b, hmoved, htorn, rfl⟩ := (hD.step hnext).torn
  refine ⟨fun hdone => ?_, fun hdone hE => hdone (h.shown hE hmoved htorn)⟩
  rcases hon with hE | ⟨hW, -⟩
  · exact h.stays hE hmoved
  · exact h.seen hW hmoved htorn hdone

/-- A round that goes on is closer to the end. -/
theorem Awaits.closer (h : Awaits reply done W E timer) (hD : Implements D reply spec) {v w : UInt8}
    {t t₁ t' : State δ} (hnext : D.Next (.read .uciStatus v) t.dev t₁.dev)
    (hon : OnTime W E timer u₀ (spec t.dev)) (hdone : done v ≠ true)
    (htod : (readTenths D).Returns t₁ w t') : Closer D spec W E t' t := by
  have hnotE := (h.poll hD hnext hon).2 hdone
  have hW : W (spec t.dev) := (hon.resolve_left hnotE).1
  obtain ⟨d, hour, hnext₁, hnext₂, -⟩ := readTenths_looks htod
  have hon₁ := h.look hD (poll_status v) hnext hon
  have hon₂ := h.look hD (poll_hour hour) hnext₁ hon₁
  obtain ⟨n₁, hmoved₁⟩ := (hD.step hnext₁).moved (poll_hour hour)
  obtain ⟨n₂, hmoved₂⟩ := (hD.step hnext₂).moved (poll_tenths w)
  refine ⟨hW, hnotE, ?_⟩
  rcases hon₁ with hE | ⟨hW₁, -⟩
  · exact Or.inl (h.stays (h.stays hE hmoved₁) hmoved₂)
  rcases hon₂ with hE | ⟨hW₂, -⟩
  · exact Or.inl (h.stays hE hmoved₂)
  exact Or.inr (.head ⟨hW₂, _, poll_tenths w, hnext₂⟩ (.head ⟨hW₁, _, poll_hour hour, hnext₁⟩
    (.single ⟨hW, _, poll_status v, hnext⟩)))

/-- **A wait for what the firmware does in time** ends with it done. -/
theorem statusWait_achieves (h : Awaits reply done W E timer) (hD : Implements D reply spec)
    {budget : Nat} (hbound : ∀ d, D.Punctual spec d → timer (spec d) + 1 < budget)
    (hacc : ∀ d, D.Punctual spec d → Acc (D.Looking fun x => W (spec x)) d)
    (hs : D.Punctual spec s.dev) (hstart : E (spec s.dev) ∨ W (spec s.dev)) :
    Achieves (statusWait D budget done) s fun c s' =>
      c = false ∧ E (spec s'.dev) ∧ s'.mem = s.mem ∧ D.Punctual spec s'.dev := by
  have hwait := boundedWait_achieves hD budget (statusPoll D done) (s := s)
    (J := fun t => OnTime W E timer (spec s.dev) (spec t.dev) ∧ t.mem = s.mem ∧
      D.Punctual spec t.dev)
    (Q := fun _ t => E (spec t.dev) ∧ t.mem = s.mem ∧ D.Punctual spec t.dev)
    (r := Closer D spec W E) ?_ ?_ ?_ fun t ht => Closer.acc (hacc t.dev ht.2.2)
  · refine hwait.bind fun o s' ho => ?_
    cases o with
    | some u => exact .pure _ ⟨rfl, ho.2 u rfl⟩
    | none =>
      -- The last poll was made too late for what was still waited for.
      exfalso
      obtain ⟨t, t', ⟨hon, -, hpunctual⟩, hret, hlate, -⟩ := ho.1 rfl
      obtain ⟨v, t₁, hlda, hrest⟩ := Prog.returns_bind.mp hret
      by_cases hdone : done v = true
      · rw [if_pos hdone] at hrest
        cases (Prog.returns_pure.mp hrest).1
      · have hclock := (hon.resolve_left ((h.poll hD (lda_next hlda) hon).2 hdone)).2
        have := hbound t.dev hpunctual
        omega
  · refine ⟨hstart.imp id fun hW => ⟨hW, ?_⟩, rfl, hs⟩
    omega
  · rintro t v t' ⟨hon, hmem, hpunctual⟩ htod
    obtain ⟨d, hour, h₁, h₂, hmem'⟩ := readTenths_looks htod
    exact ⟨h.look hD (poll_tenths v) h₂ (h.look hD (poll_hour hour) h₁ hon), hmem'.trans hmem,
      (hpunctual.next h₁).next h₂⟩
  · rintro t ⟨hon, hmem, hpunctual⟩
    refine (lda_achieves _ t).bind fun v t₁ ⟨hnext, hmem₁⟩ => .ite (fun hdone => ?_) fun hdone => ?_
    · refine .pure _ ⟨fun hcontra => ?_, fun _ _ => ?_⟩
      · cases hcontra
      · exact ⟨(h.poll hD hnext hon).1 hdone, hmem₁.trans hmem, hpunctual.next hnext⟩
    · refine .pure _ ⟨fun _ => ⟨?_, ?_, fun w t'' htod => h.closer hD hnext hon hdone htod⟩,
        fun _ hcontra => ?_⟩
      · exact ⟨h.look hD (poll_status v) hnext hon, hmem₁.trans hmem, hpunctual.next hnext⟩
      · exact ((hD.step hnext).moved (poll_status v)).clock_le
      · cases hcontra

end Awaits

end C64WireGuard.Uci
