import C64WireGuard.Uci.Termination

/-!
# `net_poll` ends

A pass of the receive loop takes a byte, or drops a block that it has drained and comes back, so a
ticking clock alone does not end it: a device that offers empty Data More blocks for ever keeps it
going. It ends on a device that keeps to three rules (`Orderly`): a byte once ready stays until it is
read, a block once staged stays until it is accepted, and no block but the last is empty.

The rules say what later looks at the status will show, so they are stated of the device alone
(`Device.Shows`, `Device.Staged`, `Device.Filled`), and what is known of it weighs against the passes
that are left (`Device.weight`).
-/

namespace C64WireGuard.Uci

open Bytes

variable {δ α : Type} {D : Device δ}

/-! ## What later looks show -/

/-- A look at the status, after other looks, shows `v`. -/
def Device.Look (D : Device δ) (v : UInt8) (d d' : δ) : Prop :=
  ∃ d₁, D.Via Access.Poll d d₁ ∧ D.Next (.read .uciStatus v) d₁ d'

/-- Every look from here on shows `DATA_AV`. -/
def Device.Shows (D : Device δ) (d : δ) : Prop :=
  ∀ v d', D.Look v d d' → v &&& uciStatDataAv ≠ 0

/-- No look from here on shows `STATE` at Command Busy. -/
def Device.Staged (D : Device δ) (d : δ) : Prop :=
  ∀ v d', D.Look v d d' → v &&& uciStatState ≠ uciStateBusy

/-- No two looks in a row show a Data More block with no byte in it. One look alone may: the status
is not latched, and a read on an edge can be torn. -/
def Device.Filled (D : Device δ) (d : δ) : Prop :=
  ∀ v d₁ w d₂, D.Look v d d₁ → D.Next (.read .uciStatus w) d₁ d₂ →
    ¬ (v &&& (uciStatDataAv ||| uciStatState) = uciStateDataMore ∧
      w &&& (uciStatDataAv ||| uciStatState) = uciStateDataMore)

/-- The rules of a reply, in every state that the device can get to: `DATA_AV` once set is cleared
by a read of the data only, a block once staged leaves `STATE` out of Command Busy until it is
accepted, and the block that follows an accepted one is not an empty Data More block. -/
structure Device.Orderly (D : Device δ) (d : δ) : Prop where
  shows : ∀ d₁ v d₂, D.Via (fun _ => True) d d₁ → D.Next (.read .uciStatus v) d₁ d₂ →
    v &&& uciStatDataAv ≠ 0 → D.Shows d₂
  staged : ∀ d₁ v d₂, D.Via (fun _ => True) d d₁ → D.Next (.read .uciStatus v) d₁ d₂ →
    v &&& uciStatState ≠ uciStateBusy → D.Staged d₂
  filled : ∀ d₁ d₂, D.Via (fun _ => True) d d₁ → D.Next (.write .uciControl uciCtrlNextData) d₁ d₂ →
    D.Filled d₂

theorem Device.Look.after {v : UInt8} {d d₁ d₂ : δ} (hvia : D.Via Access.Poll d d₁)
    (h : D.Look v d₁ d₂) : D.Look v d d₂ := by
  obtain ⟨d', hvia', hnext⟩ := h
  exact ⟨d', hvia.trans hvia', hnext⟩

/-- A look is one more access that only looks. -/
theorem Device.Look.via {v : UInt8} {d d' : δ} (h : D.Look v d d') : D.Via Access.Poll d d' := by
  obtain ⟨d₁, hvia, hnext⟩ := h
  exact hvia.tail ⟨_, poll_status v, hnext⟩

theorem Device.Shows.after {d d' : δ} (h : D.Shows d) (hvia : D.Via Access.Poll d d') :
    D.Shows d' := fun v d₁ hlook => h v d₁ (hlook.after hvia)

theorem Device.Staged.after {d d' : δ} (h : D.Staged d) (hvia : D.Via Access.Poll d d') :
    D.Staged d' := fun v d₁ hlook => h v d₁ (hlook.after hvia)

theorem Device.Filled.after {d d' : δ} (h : D.Filled d) (hvia : D.Via Access.Poll d d') :
    D.Filled d' := fun v d₁ w d₂ hlook hnext => h v d₁ w d₂ (hlook.after hvia) hnext

theorem Device.Via.any {P : Access → Prop} {d d' : δ} (h : D.Via P d d') :
    D.Via (fun _ => True) d d' := h.mono fun _ _ => trivial

/-- What an orderly device relies on is not used up. -/
theorem Device.Orderly.after {d d' : δ} (h : D.Orderly d) (hvia : D.Via (fun _ => True) d d') :
    D.Orderly d' where
  shows d₁ v d₂ hvia' := h.shows d₁ v d₂ (hvia.trans hvia')
  staged d₁ v d₂ hvia' := h.staged d₁ v d₂ (hvia.trans hvia')
  filled d₁ d₂ hvia' := h.filled d₁ d₂ (hvia.trans hvia')

/-- A clock that ticks, and an orderly device. -/
def orderly (D : Device δ) : Setting D where
  Holds d := D.Ticks d ∧ D.Orderly d
  Allowed _ := True
  closed h hvia := ⟨(ticking D).closed h.1 hvia, h.2.after hvia⟩

theorem Total.toOrderly {p : Prog (State δ) α} (h : Total (ticking D) p) : Total (orderly D) p :=
  ⟨fun s hs => h.ends s hs.1, h.touches⟩

/-! ## The looks of the receive loop -/

theorem lda_next {r : ReadReg} {v : UInt8} {s s' : State δ} (h : (lda D r).Returns s v s') :
    D.Next (.read r v) s.dev s'.dev := by
  obtain ⟨rfl, rfl⟩ := Prog.returns_act.mp h
  exact .read r s.dev

theorem sta_next {r : WriteReg} {v : UInt8} {u : Unit} {s s' : State δ}
    (h : (sta D r v).Returns s u s') : D.Next (.write r v) s.dev s'.dev := by
  obtain ⟨-, rfl⟩ := Prog.returns_act.mp h
  exact .write r v s.dev

theorem readTenths_via {t : UInt8} {s s' : State δ} (h : (readTenths D).Returns s t s') :
    D.Via Access.Poll s.dev s'.dev := by
  obtain ⟨hour, s₁, h₁, h₂⟩ := Prog.returns_bind.mp h
  exact .tail (.single ⟨_, poll_hour hour, lda_next h₁⟩) ⟨_, poll_tenths t, lda_next h₂⟩

/-- A wait for a status looks at it last. -/
theorem statusWait_look {budget : Nat} {done : UInt8 → Bool} {s s' : State δ}
    (h : (statusWait D budget done).Returns s false s') : ∃ v, D.Look v s.dev s'.dev ∧ done v := by
  obtain ⟨r, s₁, hwait, hrest⟩ := Prog.returns_bind.mp h
  have hrule := boundedWait_rule (J := fun t => D.Via Access.Poll s.dev t.dev)
    (Q := fun (_ : Unit) t => ∃ v, D.Look v s.dev t.dev ∧ done v) hwait .refl ?_ ?_
  · cases r with
    | some u =>
      obtain ⟨-, rfl⟩ := Prog.returns_pure.mp hrest
      exact hrule
    | none =>
      obtain ⟨u, s₂, -, hpure⟩ := Prog.returns_bind.mp hrest
      cases (Prog.returns_pure.mp hpure).1
  · intro t v t' hvia hten
    exact hvia.trans (readTenths_via hten)
  · intro t r t' hvia hpoll
    obtain ⟨v, t₁, hlda, hrest⟩ := Prog.returns_bind.mp hpoll
    have hlook : D.Look v s.dev t₁.dev := ⟨t.dev, hvia, lda_next hlda⟩
    rcases Prog.returns_ite.mp hrest with ⟨hdone, hpure⟩ | ⟨-, hpure⟩
    · obtain ⟨rfl, rfl⟩ := Prog.returns_pure.mp hpure
      exact ⟨v, hlook, hdone⟩
    · obtain ⟨rfl, rfl⟩ := Prog.returns_pure.mp hpure
      exact hlook.via

/-- The reads of `uci_settle_status`: it answers what the last one shows, which is what the one
before it showed. -/
theorem settleLoop_looks {reads : Nat} {prev status : UInt8} {s s' : State δ}
    (h : (settleLoop D reads prev).Returns s (some status) s') :
    (∃ w, prev = status ∧ D.Next (.read .uciStatus w) s.dev s'.dev ∧
      w &&& (uciStatDataAv ||| uciStatState) = status) ∨
    ∃ v d w, D.Look v s.dev d ∧ D.Next (.read .uciStatus w) d s'.dev ∧
      v &&& (uciStatDataAv ||| uciStatState) = status ∧
      w &&& (uciStatDataAv ||| uciStatState) = status := by
  induction reads generalizing prev s with
  | zero =>
    simp only [settleLoop, Prog.returns_bind, Prog.returns_pure, reduceCtorEq, false_and, and_false,
      exists_false] at h
  | succ reads ih =>
    simp only [settleLoop, Prog.returns_bind, Prog.returns_ite, Prog.returns_pure] at h
    obtain ⟨w, s₁, hlda, ⟨hagree, heq, rfl⟩ | ⟨-, hrest⟩⟩ := h
    · cases heq
      exact Or.inl ⟨w, hagree.symm, lda_next hlda, rfl⟩
    · right
      rcases ih hrest with ⟨w', hw, hnext, hw'⟩ | ⟨v, d, w', hlook, hrest⟩
      · exact ⟨w, s₁.dev, w', ⟨s.dev, .refl, lda_next hlda⟩, hnext, hw, hw'⟩
      · exact ⟨v, d, w', hlook.after (.single ⟨_, poll_status w, lda_next hlda⟩), hrest⟩

/-- No settled status is the byte that `uci_settle_prev` starts from. -/
theorem settled_ne_ff (v : UInt8) : v &&& (uciStatDataAv ||| uciStatState) ≠ 0xff := by
  obtain ⟨⟨n⟩⟩ := v
  revert n
  decide +kernel

theorem settled_dataAv (v : UInt8) :
    v &&& (uciStatDataAv ||| uciStatState) &&& uciStatDataAv = v &&& uciStatDataAv := by
  rw [UInt8.and_assoc]
  rfl

theorem settled_state (v : UInt8) :
    v &&& (uciStatDataAv ||| uciStatState) &&& uciStatState = v &&& uciStatState := by
  rw [UInt8.and_assoc]
  rfl

/-- A settled status with no byte ready is the state it shows. -/
theorem settled_eq_state {v : UInt8}
    (h : v &&& (uciStatDataAv ||| uciStatState) &&& uciStatDataAv = 0) :
    v &&& (uciStatDataAv ||| uciStatState) = v &&& uciStatState := by
  obtain ⟨⟨n⟩⟩ := v
  revert n
  decide +kernel

theorem uciSettleStatus_looks {status : UInt8} {s s' : State δ}
    (h : (uciSettleStatus D).Returns s (some status) s') :
    ∃ v d w, D.Look v s.dev d ∧ D.Next (.read .uciStatus w) d s'.dev ∧
      v &&& (uciStatDataAv ||| uciStatState) = status ∧
      w &&& (uciStatDataAv ||| uciStatState) = status := by
  rcases settleLoop_looks h with ⟨w, rfl, -, hw⟩ | h
  · exact absurd hw (settled_ne_ff w)
  · exact h

/-! ## A pass of the receive loop -/

theorem sta_nextData_filled {s s' : State δ} {u : Unit} (hs : D.Orderly s.dev)
    (h : (uciAck D).Returns s u s') : D.Filled s'.dev := hs.filled s.dev s'.dev .refl (sta_next h)

/-- The receive loop goes on after a status that settled: nothing is taken, and one thing more is
known of the device than before. -/
theorem blockEnd_next {o o' : Operand} {s s' : State δ} (hs : D.Orderly s.dev)
    (h : (blockEnd D o).Returns s (.inl o') s') :
    s'.mem.uciPollRem = s.mem.uciPollRem ∧ (D.Shows s'.dev ∨ (¬ D.Filled s.dev ∧ D.Filled s'.dev) ∨
      (¬ D.Staged s.dev ∧ D.Staged s'.dev ∧ (D.Filled s.dev → D.Filled s'.dev))) := by
  obtain ⟨m, s₁, hcells, h⟩ := Prog.returns_bind.mp h
  obtain ⟨rfl, rfl⟩ := cells_spec hcells
  rcases Prog.returns_ite.mp h with ⟨-, h⟩ | ⟨-, h⟩
  · cases (Prog.returns_pure.mp h).1
  obtain ⟨r, s₂, hsettle, h⟩ := Prog.returns_bind.mp h
  obtain ⟨es, -, -, -, -, -, hcore⟩ := settleLoop_spec _ hsettle
  have hrem : s₂.mem.uciPollRem = s.mem.uciPollRem := (congrArg UciMem.uciPollRem hcore :)
  cases r with
  | none => cases (Prog.returns_pure.mp h).1
  | some status =>
    obtain ⟨v, d, w, hlook, hnext, hv, hw⟩ := uciSettleStatus_looks hsettle
    have hvia : D.Via Access.Poll s.dev s₂.dev := hlook.via.tail ⟨_, poll_status w, hnext⟩
    rcases Prog.returns_ite.mp h with ⟨hav, h⟩ | ⟨hav, h⟩
    · -- A byte came while the status settled.
      obtain ⟨-, rfl⟩ := Prog.returns_pure.mp h
      rw [← hw, settled_dataAv] at hav
      exact ⟨hrem, Or.inl (hs.shows d w s'.dev hlook.via.any hnext hav)⟩
    rw [not_not] at hav
    rcases Prog.returns_ite.mp h with ⟨hmore, h⟩ | ⟨-, h⟩
    · -- A Data More block is drained: it is accepted.
      obtain ⟨u, s₃, hack, h⟩ := Prog.returns_bind.mp h
      obtain ⟨-, rfl⟩ := Prog.returns_pure.mp h
      obtain ⟨-, hmem₃⟩ := uciAck_spec hack
      have hstate : status = uciStateDataMore := by
        rw [← hw] at hav hmore ⊢
        rw [settled_eq_state hav, ← settled_state, hmore]
      refine ⟨by rw [hmem₃, hrem], Or.inr (Or.inl ⟨fun hfilled => ?_, ?_⟩)⟩
      · exact hfilled v d w s₂.dev hlook hnext ⟨hv.trans hstate, hw.trans hstate⟩
      · exact sta_nextData_filled (hs.after hvia.any) hack
    rcases Prog.returns_ite.mp h with ⟨hbusy, h⟩ | ⟨-, h⟩
    · -- The next block is on its way, and staged when the wait is over.
      obtain ⟨c, s₃, hwait, h⟩ := Prog.returns_bind.mp h
      rcases Prog.returns_ite.mp h with ⟨-, h⟩ | ⟨hc, h⟩
      · cases (Prog.returns_pure.mp h).1
      obtain ⟨-, rfl⟩ := Prog.returns_pure.mp h
      rw [Bool.not_eq_true] at hc
      subst hc
      obtain ⟨x, hx, hstaged⟩ := statusWait_look hwait
      obtain ⟨fs, -, hwaited⟩ := statusWait_spec hwait
      rw [← hw, settled_state] at hbusy
      refine ⟨by rw [hwaited.mem_eq, hrem], Or.inr (Or.inr ⟨fun hstaged => ?_, ?_, fun hfilled => ?_⟩)⟩
      · exact hstaged w s₂.dev ⟨d, hlook.via, hnext⟩ hbusy
      · obtain ⟨d₁, hvia₁, hnext₁⟩ := hx
        exact hs.staged d₁ x s'.dev (Device.Via.any (hvia.trans hvia₁)) hnext₁ (by simpa using hstaged)
      · exact hfilled.after (hvia.trans hx.via)
    · obtain ⟨u, s₃, -, h⟩ := Prog.returns_bind.mp h
      cases (Prog.returns_pure.mp h).1

open Classical in
/-- How much is not yet known of the device: the passes that can still go by without a byte. -/
noncomputable def Device.weight (D : Device δ) (d : δ) : Nat :=
  if D.Shows d then 0
  else (if D.Filled d then 0 else 2) + (if D.Staged d then 1 else 2)

theorem Device.weight_le (D : Device δ) (d : δ) : D.weight d ≤ 4 := by
  unfold weight
  split_ifs <;> omega

/-- Each pass without a byte tells something new. -/
theorem Device.weight_lt {d d' : δ} (hd : ¬ D.Shows d)
    (h : D.Shows d' ∨ (¬ D.Filled d ∧ D.Filled d') ∨
      (¬ D.Staged d ∧ D.Staged d' ∧ (D.Filled d → D.Filled d'))) : D.weight d' < D.weight d := by
  unfold weight
  rw [if_neg hd]
  rcases h with hshows | ⟨hnot, hfilled⟩ | ⟨hnot, hstaged, hkept⟩
  · rw [if_pos hshows]
    split_ifs <;> omega
  · rw [if_neg hnot, if_pos hfilled]
    split_ifs <;> omega
  · rw [if_neg hnot, if_pos hstaged]
    by_cases hfilled : D.Filled d
    · rw [if_pos hfilled, if_pos (hkept hfilled)]
      split_ifs <;> omega
    · rw [if_neg hfilled]
      split_ifs <;> omega

/-- The bytes that are missing count most, and then what is not known of the device. -/
noncomputable def passes (D : Device δ) (s : State δ) : Nat :=
  s.mem.uciPollRem * 5 + D.weight s.dev

/-- **A pass of the receive loop that goes on leaves fewer passes.** -/
theorem byteLoop_next {o o' : Operand} {s s' : State δ} (hs : D.Orderly s.dev)
    (h : (byteLoop D o).Returns s (.inl o') s') : passes D s' < passes D s := by
  obtain ⟨m, s₁, hcells, h⟩ := Prog.returns_bind.mp h
  obtain ⟨rfl, rfl⟩ := cells_spec hcells
  rcases Prog.returns_ite.mp h with ⟨-, h⟩ | ⟨hpos, h⟩
  · cases (Prog.returns_pure.mp h).1
  obtain ⟨status, s₂, hstatus, h⟩ := Prog.returns_bind.mp h
  obtain ⟨-, hmem₂⟩ := lda_spec hstatus
  have hnext := lda_next hstatus
  have hvia : D.Via Access.Poll s.dev s₂.dev := .single ⟨_, poll_status status, hnext⟩
  unfold passes
  rcases Prog.returns_ite.mp h with ⟨hav, h⟩ | ⟨-, h⟩
  · obtain ⟨hrem, hknown⟩ := blockEnd_next (hs.after hvia.any) h
    rw [hrem, hmem₂]
    have hshows : ¬ D.Shows s.dev := fun hshows => hshows status s₂.dev ⟨s.dev, .refl, hnext⟩ hav
    have hlt : D.weight s'.dev < D.weight s.dev := by
      refine Device.weight_lt hshows ?_
      rcases hknown with hshows' | ⟨hnot, hfilled⟩ | ⟨hnot, hstaged, hkept⟩
      · exact Or.inl hshows'
      · exact Or.inr (Or.inl ⟨fun hfilled => hnot (hfilled.after hvia), hfilled⟩)
      · exact Or.inr (Or.inr ⟨fun hstaged => hnot (hstaged.after hvia), hstaged,
          fun hfilled => hkept (hfilled.after hvia)⟩)
    omega
  · obtain ⟨b, s₃, hdata, u₄, s₄, hput, u₅, s₅, hcount, h⟩ := by
      simpa only [Prog.returns_bind] using h
    obtain ⟨-, rfl⟩ := Prog.returns_pure.mp h
    obtain ⟨-, hmem₃⟩ := lda_spec hdata
    obtain ⟨-, hmem₄, -⟩ := store_spec hput
    obtain ⟨-, hmem₅, -⟩ := store_spec hcount
    have hrem : s'.mem.uciPollRem = s.mem.uciPollRem - 1 := by
      rw [hmem₅, hmem₄, hmem₃, hmem₂]
      rfl
    have hle := D.weight_le s'.dev
    omega

/-! ## The whole of `net_poll` -/

theorem blockEnd_total (o : Operand) : Total (ticking D) (blockEnd D o) := by
  refine Total.cells.bind fun _ => .ite (.pure _) ((settleLoop_total _ _).bind fun r => ?_)
  cases r with
  | none => exact .pure _
  | some status =>
    exact .ite (.pure _) (.ite ((sta_total _ _).bind fun _ => .pure _)
      (.ite ((statusWait_total _ _).bind fun _ => .ite (.pure _) (.pure _))
        ((Total.store _).bind fun _ => .pure _)))

theorem byteLoop_total (o : Operand) : Total (ticking D) (byteLoop D o) :=
  Total.cells.bind fun _ => .ite (.pure _) ((lda_total _).bind fun _ => .ite (blockEnd_total o)
    ((lda_total _).bind fun _ => (Total.store _).bind fun _ => (Total.store _).bind fun _ =>
      .pure _))

/-- **The receive loop ends**. -/
theorem loop_byteLoop_total (o : Operand) : Total (orderly D) (Prog.loop (byteLoop D) o) where
  ends s hs := by
    refine Prog.Ends.loop (I := fun (_ : Operand) (t : State δ) => D.Ticks t.dev ∧ D.Orderly t.dev)
      (r := InvImage (· < ·) fun x => passes D x.2) (fun o t ht => (byteLoop_total o).ends t ht.1) ?_
      ((InvImage.wf _ Nat.lt_wfRel.wf).apply _) hs
    intro o t o' t' ht hround
    exact ⟨(orderly D).closed ht ((byteLoop_total o).touches t _ t' hround),
      byteLoop_next ht.2 hround⟩
  touches := .loop (fun o => (byteLoop_total o).touches) o

theorem hdrLoop_total (left y : Nat) : Total (ticking D) (hdrLoop D left y) := by
  induction left generalizing y with
  | zero => exact .pure _
  | succ left ih =>
    exact (lda_total _).bind fun _ => .ite (.pure _) ((lda_total _).bind fun _ =>
      (Total.store _).bind fun _ => ih (y + 1))

theorem pollFail_total : Total (ticking D) (pollFail D) :=
  drainAckAlways_total.bind fun _ => .pure _

theorem doneData_total : Total (ticking D) (doneData D) :=
  drainAckAlways_total.bind fun _ => (Total.store _).bind fun _ => .pure _

theorem hdrDone_total (buf : Nat) : Total (orderly D) (hdrDone D buf) := by
  have hgone : Total (ticking D) (drainAckAlways D >>= fun _ => pure false) :=
    drainAckAlways_total.bind fun _ => .pure _
  refine Total.cells.bind fun _ => .ite hgone.toOrderly (.ite (Total.toOrderly ?_)
    ((Total.store _).bind fun _ => Total.cells.bind fun _ => .ite hgone.toOrderly
      ((loop_byteLoop_total _).bind fun _ => .ite pollFail_total.toOrderly doneData_total.toOrderly)))
  exact drainAckAlways_total.bind fun _ => (setLastError_total _).bind fun _ => .pure _

theorem netPoll_total (buf : Nat) : Total (orderly D) (netPoll D buf) := by
  have hsta : ∀ r v, Total (orderly D) (sta D r v) := fun r v => (sta_total r v).toOrderly
  refine Total.cells.bind fun _ => .ite (.pure _) (Total.cells.bind fun _ => .ite (.pure _)
    (uciWaitIdle_total.toOrderly.bind fun _ => .ite (.pure _) ((hsta _ _).bind fun _ =>
      (hsta _ _).bind fun _ => Total.cells.bind fun _ => (hsta _ _).bind fun _ =>
        (hsta _ _).bind fun _ => (hsta _ _).bind fun _ => uciPushWait_total.toOrderly.bind fun _ =>
          .ite (.pure _) (uciCheckErr_total.toOrderly.bind fun _ => .ite ?_
            ((statusWait_total _ _).toOrderly.bind fun _ => .ite pollFail_total.toOrderly
              ((hdrLoop_total _ _).toOrderly.bind fun _ => .ite (hdrDone_total buf) ?_))))))
  · exact ((setLastError_total _).bind fun _ => pollFail_total).toOrderly
  · exact (drainAckAlways_total.bind fun _ => .pure _).toOrderly

/-- **Every operation comes back**: bring-up, address lookup, sending and closing when the clock
ticks, and receiving when the device is orderly too. -/
theorem netOperations_end {s : State δ} (hclock : D.Ticks s.dev) :
    (netInit D).Ends s ∧ (netDhcpAcquire D).Ends s ∧
    (∀ chunked ptr, (netUdpSend D chunked ptr).Ends s) ∧ (netUdpClose D).Ends s ∧
    (D.Orderly s.dev → ∀ buf, (netPoll D buf).Ends s) :=
  ⟨netInit_total.ends s hclock, netDhcpAcquire_total.ends s hclock,
    fun chunked ptr => netUdpSend_ends chunked ptr hclock, netUdpClose_total.ends s hclock,
    fun horderly buf => (netPoll_total buf).ends s ⟨hclock, horderly⟩⟩

/-- The tenths of a clock that runs. -/
def runningTenths (n : Nat) : UInt8 := UInt8.ofNat (n % 10)

theorem runningTenths_ticks (n : Nat) : ∃ m, n ≤ m ∧ runningTenths (m + 1) ≠ runningTenths m := by
  refine ⟨10 * n, by omega, ?_⟩
  unfold runningTenths
  rw [Nat.mul_mod_right, Nat.mul_add_mod]
  decide

/-- An idle device whose clock runs, with a socket open. -/
def idleState : State (Nat × Nat) where
  mem := { UciMem.start with uciSocketOpen := 1, uciSocketId := 1, netUdpSendLen := 1472 }
  dev := (0, 0)
  log := []

theorem netOperations_end_idle :
    let D := sequenceDevice (fun _ _ => 0) runningTenths
    (netInit D).Ends idleState ∧ (netDhcpAcquire D).Ends idleState ∧
    (∀ chunked ptr, (netUdpSend D chunked ptr).Ends idleState) ∧ (netUdpClose D).Ends idleState ∧
    ∀ buf, (netPoll D buf).Ends idleState := by
  intro D
  have hstatus : ∀ {v d d'}, D.Next (.read .uciStatus v) d d' → v = 0 := by
    intro v d d' hnext
    generalize ha : Access.read .uciStatus v = a at hnext
    cases hnext with
    | read r d =>
      cases ha
      rfl
    | write r v d => cases ha
  have hlook : ∀ {v d d'}, D.Look v d d' → v = 0 := by
    rintro v d d' ⟨d₁, -, hnext⟩
    exact hstatus hnext
  have horderly : D.Orderly idleState.dev := by
    refine ⟨fun d₁ v d₂ _ hnext hav => ?_, fun d₁ v d₂ _ _ _ w d₃ hw => ?_,
      fun d₁ d₂ _ _ v d₃ w d₄ hv _ hmore => ?_⟩
    · exact absurd (by rw [hstatus hnext]; rfl) hav
    · rw [hlook hw]
      decide
    · rw [hlook hv] at hmore
      exact absurd hmore.1 (by decide)
  obtain ⟨hinit, hdhcp, hsend, hclose, hpoll⟩ :=
    netOperations_end (sequenceDevice_ticks runningTenths_ticks idleState.dev)
  exact ⟨hinit, hdhcp, hsend, hclose, hpoll horderly⟩

end C64WireGuard.Uci
