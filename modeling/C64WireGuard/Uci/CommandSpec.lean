import C64WireGuard.Uci.Trace

/-!
# What the helpers of `uci_cmd.s` do

One statement for each helper, over every device: the stretch of the log it leaves, and the cells
it writes. A bounded wait that gives up marks the log, and nothing else does, so the carry of every
helper is read off its stretch.
-/

namespace C64WireGuard.Uci

open Bytes

variable {δ α : Type} {D : Device δ} {s s' : State δ}

/-! ## Single accesses -/

theorem lda_spec {r : ReadReg} {v : UInt8} (h : (lda D r).Returns s v s') :
    s'.log = s.log ++ [.read r v] ∧ s'.mem = s.mem := by
  obtain ⟨rfl, rfl⟩ := Prog.returns_act.mp h
  exact ⟨rfl, rfl⟩

theorem sta_spec {r : WriteReg} {v : UInt8} {u : Unit} (h : (sta D r v).Returns s u s') :
    s'.log = s.log ++ [.write r v] ∧ s'.mem = s.mem := by
  obtain ⟨rfl, rfl⟩ := Prog.returns_act.mp h
  exact ⟨rfl, rfl⟩

theorem cells_spec {m : UciMem} (h : cells.Returns s m s') : m = s.mem ∧ s = s' := by
  obtain ⟨rfl, rfl⟩ := Prog.returns_act.mp h
  exact ⟨rfl, rfl⟩

theorem store_spec {f : UciMem → UciMem} {u : Unit} (h : (store f).Returns s u s') :
    s'.log = s.log ∧ s'.mem = f s.mem ∧ s'.dev = s.dev := by
  obtain ⟨rfl, rfl⟩ := Prog.returns_act.mp h
  exact ⟨rfl, rfl, rfl⟩

theorem giveUp_spec {u : Unit} (h : giveUp.Returns s u s') :
    s'.log = s.log ++ [.expired] ∧ s'.mem = s.mem := by
  obtain ⟨rfl, rfl⟩ := Prog.returns_act.mp h
  exact ⟨rfl, rfl⟩

/-! ## Bounded waits -/

theorem readTenths_spec {t : UInt8} (h : (readTenths D).Returns s t s') :
    ∃ hour, s'.log = s.log ++ [.read .ciaTodHour hour, .read .ciaTodTenths t] ∧ s'.mem = s.mem := by
  obtain ⟨hour, s₁, h₁, h₂⟩ := Prog.returns_bind.mp h
  obtain ⟨hlog₁, hmem₁⟩ := lda_spec h₁
  obtain ⟨hlog₂, hmem₂⟩ := lda_spec h₂
  refine ⟨hour, ?_, hmem₂.trans hmem₁⟩
  rw [hlog₂, hlog₁, List.append_assoc]
  rfl

/-- What a poll leaves: `J` where the wait goes on, `Q` where it ends. -/
def Polled {β : Type} (J : β → Prop) (Q : α → β → Prop) : Option α → β → Prop
  | none => J
  | some a => Q a

/-- **A bounded wait** keeps what its polls and the looks at the clock keep, and ends with what the
last poll leaves or with the mark that its time was up. -/
theorem boundedWait_rule {budget : Nat} {poll : Prog (State δ) (Option α)} {J : State δ → Prop}
    {Q : α → State δ → Prop} {r : Option α} (h : (boundedWait D budget poll).Returns s r s')
    (hJ : J s) (htod : ∀ t v t', J t → (readTenths D).Returns t v t' → J t')
    (hpoll : ∀ t r t', J t → poll.Returns t r t' → Polled J Q r t') :
    Polled (fun s' => ∃ t, J t ∧ giveUp.Returns t () s') Q r s' := by
  obtain ⟨t₀, s₁, htenths, hloop⟩ := Prog.returns_bind.mp h
  refine hloop.loop_rule (I := fun _ t => J t)
    (Q := Polled (fun s' => ∃ t, J t ∧ giveUp.Returns t () s') Q) ?_ ?_ (htod s t₀ s₁ hJ htenths)
  · rintro ⟨last, elapsed⟩ t j t' hJ hround
    obtain ⟨r, t₁, hp, hrest⟩ := Prog.returns_bind.mp hround
    have hp := hpoll t r t₁ hJ hp
    cases r with
    | some a => cases (Prog.returns_pure.mp hrest).1
    | none =>
      obtain ⟨tenths, t₂, hten, hrest⟩ := Prog.returns_bind.mp hrest
      have hJ₂ := htod t₁ tenths t₂ hp hten
      simp only [Prog.returns_ite, Prog.returns_bind, Prog.returns_pure] at hrest
      rcases hrest with ⟨-, -, rfl⟩ | ⟨-, ⟨-, -, rfl⟩ | ⟨-, u, t₃, -, hcontra, -⟩⟩
      · exact hJ₂
      · exact hJ₂
      · cases hcontra
  · rintro ⟨last, elapsed⟩ t a t' hJ hround
    obtain ⟨r, t₁, hp, hrest⟩ := Prog.returns_bind.mp hround
    have hp := hpoll t r t₁ hJ hp
    cases r with
    | some b =>
      obtain ⟨heq, rfl⟩ := Prog.returns_pure.mp hrest
      cases heq
      exact hp
    | none =>
      obtain ⟨tenths, t₂, hten, hrest⟩ := Prog.returns_bind.mp hrest
      have hJ₂ := htod t₁ tenths t₂ hp hten
      simp only [Prog.returns_ite, Prog.returns_bind, Prog.returns_pure] at hrest
      rcases hrest with ⟨-, hcontra, -⟩ | ⟨-, ⟨-, hcontra, -⟩ | ⟨-, u, t₃, hgive, heq, rfl⟩⟩
      · cases hcontra
      · cases hcontra
      · cases heq
        exact ⟨t₂, hJ₂, hgive⟩

/-- `J` holds of the stretch of the log since `s`, and of the cells. -/
def Since (s : State δ) (J : List Access → UciMem → Prop) (t : State δ) : Prop :=
  ∃ es, t.log = s.log ++ es ∧ J es t.mem

theorem Since.add {J K : List Access → UciMem → Prop} {t : State δ} {es : List Access}
    (h : Since s J t) (hlog : s'.log = t.log ++ es) (hK : ∀ fs, J fs t.mem → K (fs ++ es) s'.mem) :
    Since s K s' := by
  obtain ⟨fs, hfs, hJ⟩ := h
  exact ⟨fs ++ es, by rw [hlog, hfs, List.append_assoc], hK fs hJ⟩

/-- The rule for what can be told from the log and the cells. -/
theorem boundedWait_since {budget : Nat} {poll : Prog (State δ) (Option α)}
    {J : List Access → UciMem → Prop} {Q : α → List Access → UciMem → Prop} {r : Option α}
    (h : (boundedWait D budget poll).Returns s r s') (hJ : J [] s.mem)
    (htod : ∀ es m hour t, J es m → J (es ++ [.read .ciaTodHour hour, .read .ciaTodTenths t]) m)
    (hpoll : ∀ t r t', Since s J t → poll.Returns t r t' →
      Polled (Since s J) (fun a => Since s (Q a)) r t') :
    Polled (Since s fun es m => ∃ fs, es = fs ++ [.expired] ∧ J fs m) (fun a => Since s (Q a)) r
      s' := by
  have hrule := boundedWait_rule (J := Since s J) (Q := fun a => Since s (Q a)) h
    ⟨[], (List.append_nil _).symm, hJ⟩ ?_ hpoll
  · cases r with
    | some a => exact hrule
    | none =>
      obtain ⟨t, hJ, hgive⟩ := hrule
      obtain ⟨hlog, hmem⟩ := giveUp_spec hgive
      exact Since.add (K := fun es m => ∃ fs, es = fs ++ [.expired] ∧ J fs m) hJ hlog fun fs hfs =>
        ⟨fs, rfl, by rwa [hmem]⟩
  · intro t v t' hJ hten
    obtain ⟨hour, hlog, hmem⟩ := readTenths_spec hten
    exact hJ.add hlog fun fs hfs => by
      rw [hmem]
      exact htod fs t.mem hour v hfs

/-! ## Waits for a status -/

/-- A read of the status or of the clock. -/
def Access.Poll : Access → Prop
  | .read .uciStatus _ | .read .ciaTodHour _ | .read .ciaTodTenths _ => True
  | _ => False

/-- A stretch of the log that only looks at the status and the clock. -/
def Polls (es : List Access) : Prop := ∀ e ∈ es, e.Poll

@[simp] theorem polls_nil : Polls [] := by simp [Polls]

@[simp] theorem polls_cons {e : Access} {es : List Access} :
    Polls (e :: es) ↔ e.Poll ∧ Polls es := by simp [Polls]

@[simp] theorem polls_append {es fs : List Access} : Polls (es ++ fs) ↔ Polls es ∧ Polls fs := by
  simp only [Polls, List.mem_append, or_imp, forall_and]

@[simp] theorem poll_status (v : UInt8) : (Access.read .uciStatus v).Poll := trivial

@[simp] theorem poll_hour (v : UInt8) : (Access.read .ciaTodHour v).Poll := trivial

@[simp] theorem poll_tenths (v : UInt8) : (Access.read .ciaTodTenths v).Poll := trivial

theorem Polls.quiet {es : List Access} (h : Polls es) : Quiet es := by
  intro e he
  match e, h e he with
  | .read _ _, _ => trivial

theorem Polls.not_expired {es : List Access} (h : Polls es) : .expired ∉ es := fun he => h _ he

theorem Polls.readsOf_data {es : List Access} (h : Polls es) :
    readsOf .uciRespData es = [] ∧ readsOf .uciStatusData es = [] := by
  induction es with
  | nil => exact ⟨rfl, rfl⟩
  | cons e es ih =>
    rw [polls_cons] at h
    match e, h.1 with
    | .read .uciStatus _, _ => exact ih h.2
    | .read .ciaTodHour _, _ => exact ih h.2
    | .read .ciaTodTenths _, _ => exact ih h.2

/-- The error a wait leaves when its time is up. -/
def UciMem.timedOut (m : UciMem) : UciMem := { m with netLastError := uciErrWaitTimeout }

/-- The cells without those every helper may overwrite: the last error and the status line. -/
def UciMem.core (m : UciMem) : UciMem :=
  { m with
    netLastError := 0
    uciStatusBuf := zero _
    uciStatusLen := 0
    uciStatusSeen := 0
    dstIdx := 0 }

@[simp] theorem core_timedOut (m : UciMem) : m.timedOut.core = m.core := rfl

theorem waitTimeout_spec {c : Bool} (h : waitTimeout.Returns s c s') :
    c = true ∧ s'.log = s.log ∧ s'.mem = s.mem.timedOut := by
  simp only [waitTimeout, Prog.returns_bind, Prog.returns_pure] at h
  obtain ⟨u, s₁, hstore, rfl, rfl⟩ := h
  obtain ⟨hlog, hmem, -⟩ := store_spec hstore
  exact ⟨rfl, hlog, hmem⟩

/-- The stretch of a wait for a status that satisfies `done`: it ends with such a status, or with
its time up and none of them seen. -/
inductive Waited (done : UInt8 → Bool) (m : UciMem) : Bool → List Access → UciMem → Prop
  | seen {es : List Access} {vs : List UInt8} {v : UInt8} (polls : Polls es)
      (reads : readsOf .uciStatus es = vs ++ [v]) (before : ∀ w ∈ vs, done w = false)
      (last : done v = true) : Waited done m false es m
  | expired {es : List Access} (polls : Polls es)
      (reads : ∀ w ∈ readsOf .uciStatus es, done w = false) :
      Waited done m true (es ++ [.expired]) m.timedOut

theorem Waited.quiet {done : UInt8 → Bool} {m m' : UciMem} {c : Bool} {es : List Access}
    (h : Waited done m c es m') : Quiet es := by
  cases h with
  | seen hpolls => exact hpolls.quiet
  | expired hpolls => simp [hpolls.quiet]

theorem Waited.expired_iff {done : UInt8 → Bool} {m m' : UciMem} {c : Bool} {es : List Access}
    (h : Waited done m c es m') : c = true ↔ .expired ∈ es := by
  cases h with
  | seen hpolls => simp [hpolls.not_expired]
  | expired hpolls => simp

theorem Waited.mem_eq {done : UInt8 → Bool} {m m' : UciMem} {es : List Access}
    (h : Waited done m false es m') : m' = m := by
  cases h
  rfl

theorem Waited.core {done : UInt8 → Bool} {m m' : UciMem} {c : Bool} {es : List Access}
    (h : Waited done m c es m') : m'.core = m.core := by
  cases h <;> rfl

theorem Waited.readsOf_data {done : UInt8 → Bool} {m m' : UciMem} {c : Bool} {es : List Access}
    (h : Waited done m c es m') : readsOf .uciRespData es = [] ∧ readsOf .uciStatusData es = [] := by
  cases h with
  | seen hpolls => exact hpolls.readsOf_data
  | expired hpolls => simp [hpolls.readsOf_data]

theorem statusWait_spec {budget : Nat} {done : UInt8 → Bool} {c : Bool}
    (h : (statusWait D budget done).Returns s c s') :
    Since s (Waited done s.mem c) s' := by
  obtain ⟨r, s₁, hwait, hrest⟩ := Prog.returns_bind.mp h
  have hspec := boundedWait_since
    (J := fun es m => Polls es ∧ (∀ w ∈ readsOf .uciStatus es, done w = false) ∧ m = s.mem)
    (Q := fun _ es m => Waited done s.mem false es m) hwait
    ⟨polls_nil, by simp, rfl⟩ ?_ ?_
  · cases r with
    | some u =>
      obtain ⟨rfl, rfl⟩ := Prog.returns_pure.mp hrest
      exact hspec
    | none =>
      obtain ⟨rfl, hlog, hmem⟩ := waitTimeout_spec hrest
      obtain ⟨es, hes, fs, rfl, hpolls, hreads, hm⟩ := hspec
      refine ⟨fs ++ [.expired], hlog.trans hes, ?_⟩
      rw [hmem, hm]
      exact .expired hpolls hreads
  · rintro es m hour t ⟨hpolls, hreads, rfl⟩
    refine ⟨by simp [hpolls], ?_, rfl⟩
    simpa using hreads
  · rintro t r t' ⟨es, hes, hpolls, hreads, hm⟩ hpoll
    simp only [statusPoll, Prog.returns_bind, Prog.returns_ite, Prog.returns_pure] at hpoll
    obtain ⟨v, t₁, hlda, ⟨hv, rfl, rfl⟩ | ⟨hv, rfl, rfl⟩⟩ := hpoll
    · obtain ⟨hlog, hmem⟩ := lda_spec hlda
      refine ⟨es ++ [.read .uciStatus v], by rw [hlog, hes, List.append_assoc], ?_⟩
      rw [hmem, hm]
      exact .seen (by simp [hpolls]) (by simp) hreads hv
    · obtain ⟨hlog, hmem⟩ := lda_spec hlda
      refine ⟨es ++ [.read .uciStatus v], by rw [hlog, hes, List.append_assoc],
        by simp [hpolls], ?_, hmem.trans hm⟩
      intro w hw
      rw [readsOf_append, List.mem_append] at hw
      rcases hw with hw | hw
      · exact hreads w hw
      · rw [readsOf_read, if_pos rfl, readsOf_nil, List.mem_singleton] at hw
        rw [hw]
        exact eq_false_of_ne_true hv

/-! ## The gate, the push and the error bit -/

/-- A poll, or a write to the control register that pushes nothing. -/
def Access.Calm : Access → Prop
  | .write .uciControl v => v ≠ uciCtrlPushCmd
  | e => e.Poll

/-- A stretch of the log that moves no data. -/
def Calm (es : List Access) : Prop := ∀ e ∈ es, e.Calm

@[simp] theorem calm_nil : Calm [] := by simp [Calm]

@[simp] theorem calm_cons {e : Access} {es : List Access} :
    Calm (e :: es) ↔ e.Calm ∧ Calm es := by simp [Calm]

@[simp] theorem calm_append {es fs : List Access} : Calm (es ++ fs) ↔ Calm es ∧ Calm fs := by
  simp only [Calm, List.mem_append, or_imp, forall_and]

@[simp] theorem calm_status (v : UInt8) : (Access.read .uciStatus v).Calm := trivial

@[simp] theorem calm_hour (v : UInt8) : (Access.read .ciaTodHour v).Calm := trivial

@[simp] theorem calm_tenths (v : UInt8) : (Access.read .ciaTodTenths v).Calm := trivial

@[simp] theorem calm_nextData : (Access.write .uciControl uciCtrlNextData).Calm := by
  show uciCtrlNextData ≠ uciCtrlPushCmd
  decide

@[simp] theorem calm_clrErr : (Access.write .uciControl uciCtrlClrErr).Calm := by
  show uciCtrlClrErr ≠ uciCtrlPushCmd
  decide

theorem Polls.calm {es : List Access} (h : Polls es) : Calm es := by
  intro e he
  match e, h e he with
  | .read _ _, hpoll => exact hpoll

theorem Calm.quiet {es : List Access} (h : Calm es) : Quiet es := by
  intro e he
  match e, h e he with
  | .read _ _, _ => trivial
  | .write .uciControl _, hv => exact hv

theorem Calm.not_expired {es : List Access} (h : Calm es) : .expired ∉ es := fun he => h _ he

theorem Calm.readsOf_data {es : List Access} (h : Calm es) :
    readsOf .uciRespData es = [] ∧ readsOf .uciStatusData es = [] := by
  induction es with
  | nil => exact ⟨rfl, rfl⟩
  | cons e es ih =>
    rw [calm_cons] at h
    match e, h.1 with
    | .read .uciStatus _, _ => exact ih h.2
    | .read .ciaTodHour _, _ => exact ih h.2
    | .read .ciaTodTenths _, _ => exact ih h.2
    | .write .uciControl _, _ => exact ih h.2

/-- The stretch of a helper that moves no data, by its carry. -/
inductive Calmed (m : UciMem) : Bool → List Access → UciMem → Prop
  | passed {es : List Access} (calm : Calm es) : Calmed m false es m
  | expired {es : List Access} (calm : Calm es) : Calmed m true (es ++ [.expired]) m.timedOut

theorem Calmed.quiet {m m' : UciMem} {c : Bool} {es : List Access} (h : Calmed m c es m') :
    Quiet es := by
  cases h with
  | passed hcalm => exact hcalm.quiet
  | expired hcalm => simp [hcalm.quiet]

theorem Calmed.expired_iff {m m' : UciMem} {c : Bool} {es : List Access} (h : Calmed m c es m') :
    c = true ↔ .expired ∈ es := by
  cases h with
  | passed hcalm => simp [hcalm.not_expired]
  | expired hcalm => simp

theorem Calmed.mem_eq {m m' : UciMem} {es : List Access} (h : Calmed m false es m') : m' = m := by
  cases h
  rfl

theorem Calmed.core {m m' : UciMem} {c : Bool} {es : List Access} (h : Calmed m c es m') :
    m'.core = m.core := by
  cases h <;> rfl

theorem Calmed.readsOf_data {m m' : UciMem} {c : Bool} {es : List Access} (h : Calmed m c es m') :
    readsOf .uciRespData es = [] ∧ readsOf .uciStatusData es = [] := by
  cases h with
  | passed hcalm => exact hcalm.readsOf_data
  | expired hcalm => simp [hcalm.readsOf_data]

theorem Calmed.still {m m' : UciMem} {c : Bool} {es : List Access} (h : Calmed m c es m') :
    Still es := ⟨h.quiet, h.readsOf_data.1, h.readsOf_data.2⟩

theorem uciAck_spec {u : Unit} (h : (uciAck D).Returns s u s') :
    s'.log = s.log ++ [.write .uciControl uciCtrlNextData] ∧ s'.mem = s.mem := sta_spec h

theorem idlePoll_spec {r : Option UInt8} (h : (idlePoll D).Returns s r s') :
    Since s (fun es m => Calm es ∧ m = s.mem) s' := by
  simp only [idlePoll, Prog.returns_bind, Prog.returns_ite, Prog.returns_pure] at h
  obtain ⟨v, s₁, hlda, h⟩ := h
  obtain ⟨hlog, hmem⟩ := lda_spec hlda
  rcases h with ⟨-, w, s₂, hlda', h⟩ | ⟨-, ⟨-, u, s₂, hack, -, rfl⟩ | ⟨-, -, rfl⟩⟩
  · obtain ⟨hlog', hmem'⟩ := lda_spec hlda'
    have hs' : s' = s₂ := by
      rcases h with ⟨-, -, rfl⟩ | ⟨-, -, rfl⟩ <;> rfl
    refine ⟨[.read .uciStatus v, .read .uciStatus w], ?_, by simp, ?_⟩
    · rw [hs', hlog', hlog, List.append_assoc]
      rfl
    · rw [hs', hmem', hmem]
  · obtain ⟨hlog', hmem'⟩ := uciAck_spec hack
    refine ⟨[.read .uciStatus v, .write .uciControl uciCtrlNextData], ?_, by simp, ?_⟩
    · rw [hlog', hlog, List.append_assoc]
      rfl
    · rw [hmem', hmem]
  · exact ⟨[.read .uciStatus v], hlog, by simp, hmem⟩

theorem idleDone_spec {status : UInt8} {c : Bool} (h : (idleDone D status).Returns s c s') :
    c = false ∧ Since s (fun es m => Calm es ∧ m = s.mem) s' := by
  simp only [idleDone, Prog.returns_bind, Prog.returns_ite, Prog.returns_pure] at h
  rcases h with ⟨-, rfl, rfl⟩ | ⟨-, u, s₁, hsta, rfl, rfl⟩
  · exact ⟨rfl, [], (List.append_nil _).symm, calm_nil, rfl⟩
  · obtain ⟨hlog, hmem⟩ := sta_spec hsta
    exact ⟨rfl, _, hlog, by simp, hmem⟩

theorem uciWaitIdle_spec {c : Bool} (h : (uciWaitIdle D).Returns s c s') :
    Since s (Calmed s.mem c) s' := by
  obtain ⟨r, s₁, hwait, hrest⟩ := Prog.returns_bind.mp h
  have hspec := boundedWait_since (J := fun es m => Calm es ∧ m = s.mem)
    (Q := fun _ es m => Calm es ∧ m = s.mem) hwait ⟨calm_nil, rfl⟩
    (by rintro es m hour t ⟨hcalm, rfl⟩; exact ⟨by simp [hcalm], rfl⟩) ?_
  · cases r with
    | some status =>
      obtain ⟨es, hes, hcalm, hm⟩ := hspec
      obtain ⟨rfl, fs, hfs, hcalm', hm'⟩ := idleDone_spec hrest
      refine ⟨es ++ fs, by rw [hfs, hes, List.append_assoc], ?_⟩
      rw [hm', hm]
      exact .passed (by simp [hcalm, hcalm'])
    | none =>
      obtain ⟨rfl, hlog, hmem⟩ := waitTimeout_spec hrest
      obtain ⟨es, hes, fs, rfl, hcalm, hm⟩ := hspec
      refine ⟨fs ++ [.expired], hlog.trans hes, ?_⟩
      rw [hmem, hm]
      exact .expired hcalm
  · rintro t r t' ⟨es, hes, hcalm, hm⟩ hpoll
    obtain ⟨fs, hfs, hcalm', hm'⟩ := idlePoll_spec hpoll
    have hkeep : Since s (fun es m => Calm es ∧ m = s.mem) t' :=
      ⟨es ++ fs, by rw [hfs, hes, List.append_assoc], by simp [hcalm, hcalm'], hm'.trans hm⟩
    cases r with
    | none => exact hkeep
    | some a => exact hkeep

theorem uciPushWait_spec {c : Bool} (h : (uciPushWait D).Returns s c s') :
    ∃ es, s'.log = s.log ++ .write .uciControl uciCtrlPushCmd :: es ∧
      Waited (fun status => status &&& uciStatCmdBusy = 0) s.mem c es s'.mem := by
  obtain ⟨u, s₁, hsta, hwait⟩ := Prog.returns_bind.mp h
  obtain ⟨hlog, hmem⟩ := sta_spec hsta
  obtain ⟨es, hes, hspec⟩ := statusWait_spec hwait
  rw [hmem] at hspec
  exact ⟨es, by rw [hes, hlog, List.append_assoc]; rfl, hspec⟩

/-- The status is read once; an error in it is cleared and reported. -/
theorem uciCheckErr_spec {c : Bool} (h : (uciCheckErr D).Returns s c s') :
    ∃ v, (c = false ↔ v &&& uciStatError = 0) ∧ s'.mem = s.mem ∧
      s'.log = s.log ++ .read .uciStatus v ::
        (if c then [.write .uciControl uciCtrlClrErr] else []) := by
  simp only [uciCheckErr, Prog.returns_bind, Prog.returns_ite, Prog.returns_pure] at h
  obtain ⟨v, s₁, hlda, h⟩ := h
  obtain ⟨hlog, hmem⟩ := lda_spec hlda
  rcases h with ⟨hv, rfl, rfl⟩ | ⟨hv, u, s₂, hsta, rfl, rfl⟩
  · exact ⟨v, by simp [hv], hmem, hlog⟩
  · obtain ⟨hlog', hmem'⟩ := sta_spec hsta
    refine ⟨v, by simp [hv], hmem'.trans hmem, ?_⟩
    rw [hlog', hlog, List.append_assoc]
    rfl

/-! ## Reading a reply -/

/-- The bytes `bs`, stored one after the other from place `i` on. -/
def storeFrom (dst : Nat → UInt8 → UciMem → UciMem) : Nat → List UInt8 → UciMem → UciMem
  | _, [], m => m
  | i, b :: bs, m => storeFrom dst (i + 1) bs (dst i b m)

theorem storeFrom_append (dst : Nat → UInt8 → UciMem → UciMem) (i : Nat) (bs cs : List UInt8)
    (m : UciMem) :
    storeFrom dst i (bs ++ cs) m = storeFrom dst (i + bs.length) cs (storeFrom dst i bs m) := by
  induction bs generalizing i m with
  | nil => rfl
  | cons b bs ih =>
    rw [List.cons_append, storeFrom, ih, storeFrom, List.length_cons, Nat.add_right_comm]
    rfl

/-- No wait gave up before the end of the stretch. -/
def LastWait (es : List Access) : Prop := .expired ∉ es.dropLast

theorem LastWait.of_not_mem {es : List Access} (h : .expired ∉ es) : LastWait es := fun he =>
  h (List.dropLast_subset es he)

theorem LastWait.of_singleton (e : Access) : LastWait [e] := by simp [LastWait]

theorem LastWait.append {es fs : List Access} (h : .expired ∉ es) (h' : LastWait fs) :
    LastWait (es ++ fs) := by
  unfold LastWait at *
  rw [List.dropLast_append]
  split
  · exact of_not_mem h
  · simp [h, h']

theorem rdWait_spec {r : Option Unit} (h : (rdWait D).Returns s r s') :
    Since s (fun es m => m = s.mem ∧ Quiet es ∧ readsOf .uciRespData es = [] ∧
      readsOf .uciStatusData es = [] ∧ LastWait es ∧ (r = none ↔ .expired ∈ es)) s' := by
  have hspec := boundedWait_since (J := fun es m => Polls es ∧ m = s.mem)
    (Q := fun _ es m => Polls es ∧ m = s.mem) h ⟨polls_nil, rfl⟩
    (by rintro es m hour t ⟨hpolls, rfl⟩; exact ⟨by simp [hpolls], rfl⟩) ?_
  · cases r with
    | some u =>
      obtain ⟨es, hes, hpolls, hm⟩ := hspec
      exact ⟨es, hes, hm, hpolls.quiet, hpolls.readsOf_data.1, hpolls.readsOf_data.2,
        .of_not_mem hpolls.not_expired, by simp [hpolls.not_expired]⟩
    | none =>
      obtain ⟨es, hes, fs, rfl, hpolls, hm⟩ := hspec
      exact ⟨_, hes, hm, by simp [hpolls.quiet], by simp [hpolls.readsOf_data],
        by simp [hpolls.readsOf_data], .append hpolls.not_expired (.of_singleton _), by simp⟩
  · rintro t r t' ⟨es, hes, hpolls, hm⟩ hpoll
    simp only [statusPoll, Prog.returns_bind, Prog.returns_ite, Prog.returns_pure] at hpoll
    obtain ⟨v, t₁, hlda, hpoll⟩ := hpoll
    obtain ⟨hlog, hmem⟩ := lda_spec hlda
    have hkeep : Since s (fun es m => Polls es ∧ m = s.mem) t₁ :=
      ⟨es ++ [.read .uciStatus v], by rw [hlog, hes, List.append_assoc], by simp [hpolls],
        hmem.trans hm⟩
    rcases hpoll with ⟨-, rfl, rfl⟩ | ⟨-, rfl, rfl⟩
    · exact hkeep
    · exact hkeep

/-- **`uci_read_resp_bytes`** stores what it reads in order, and reads fewer bytes than it was asked
for exactly when a wait gave up. -/
theorem uciReadRespBytes_spec {max : Nat} {dst : Nat → UInt8 → UciMem → UciMem} {u : Unit}
    (h : (uciReadRespBytes D max dst).Returns s u s') :
    Since s (fun es m => Quiet es ∧ readsOf .uciStatusData es = [] ∧ LastWait es ∧
      (readsOf .uciRespData es).length ≤ max ∧
      ((readsOf .uciRespData es).length < max ↔ .expired ∈ es) ∧
      m = { storeFrom dst 0 (readsOf .uciRespData es) s.mem with
            uciRespCount := (readsOf .uciRespData es).length }) s' := by
  obtain ⟨y, s₁, hloop, hstore⟩ := Prog.returns_bind.mp h
  obtain ⟨hlog', hmem', -⟩ := store_spec hstore
  have hspec := hloop.loop_rule
    (I := fun y => Since s fun es m => Quiet es ∧ readsOf .uciStatusData es = [] ∧ .expired ∉ es ∧
      (readsOf .uciRespData es).length = y ∧ y ≤ max ∧
      m = storeFrom dst 0 (readsOf .uciRespData es) s.mem)
    (Q := fun y => Since s fun es m => Quiet es ∧ readsOf .uciStatusData es = [] ∧ LastWait es ∧
      (readsOf .uciRespData es).length = y ∧ y ≤ max ∧ (y < max ↔ .expired ∈ es) ∧
      m = storeFrom dst 0 (readsOf .uciRespData es) s.mem)
    ?_ ?_ ⟨[], (List.append_nil _).symm, quiet_nil, rfl, by simp, rfl, Nat.zero_le _, rfl⟩
  · obtain ⟨es, hes, hquiet, hstatus, hlast, hlen, hmax, hexp, hm⟩ := hspec
    subst hlen
    exact ⟨es, hlog'.trans hes, hquiet, hstatus, hlast, hmax, hexp, by rw [hmem', hm]⟩
  · rintro y t j t' ⟨es, hes, hquiet, hstatus, hexp, hlen, hmax, hm⟩ hround
    simp only [rdLoop, Prog.returns_bind, Prog.returns_ite, Prog.returns_pure] at hround
    rcases hround with ⟨-, hcontra, -⟩ | ⟨hlt, r, t₁, hwait, hrest⟩
    · cases hcontra
    · obtain ⟨fs, hfs, hm₁, hquiet₁, hresp₁, hstatus₁, hlast₁, hexp₁⟩ := rdWait_spec hwait
      cases r with
      | none => cases (Prog.returns_pure.mp hrest).1
      | some u =>
        simp only [Prog.returns_bind, Prog.returns_pure, Sum.inl.injEq] at hrest
        obtain ⟨b, t₂, hlda, u', t₃, hput, rfl, rfl⟩ := hrest
        obtain ⟨hlog₂, hm₂⟩ := lda_spec hlda
        obtain ⟨hlog₃, hm₃, -⟩ := store_spec hput
        have hexp₁ : .expired ∉ fs := fun he => by cases hexp₁.mpr he
        refine ⟨es ++ fs ++ [.read .uciRespData b], ?_, by simp [hquiet, hquiet₁],
          by simp [hstatus, hstatus₁], by simp [hexp, hexp₁], by simp [hresp₁, hlen], by omega, ?_⟩
        · rw [hlog₃, hlog₂, hfs, hes]
          simp only [List.append_assoc]
        · rw [hm₃, hm₂, hm₁, hm]
          simp only [readsOf_append, hresp₁, List.append_nil, readsOf_read, if_true, readsOf_nil,
            storeFrom_append, hlen, Nat.zero_add]
          rfl
  · rintro y t j t' ⟨es, hes, hquiet, hstatus, hexp, hlen, hmax, hm⟩ hround
    simp only [rdLoop, Prog.returns_bind, Prog.returns_ite, Prog.returns_pure] at hround
    rcases hround with ⟨hle, heq, rfl⟩ | ⟨hlt, r, t₁, hwait, hrest⟩
    · cases heq
      exact ⟨es, hes, hquiet, hstatus, .of_not_mem hexp, hlen, hmax, by simp [hexp, hle], hm⟩
    · obtain ⟨fs, hfs, hm₁, hquiet₁, hresp₁, hstatus₁, hlast₁, hexp₁⟩ := rdWait_spec hwait
      cases r with
      | none =>
        obtain ⟨heq, rfl⟩ := Prog.returns_pure.mp hrest
        cases heq
        refine ⟨es ++ fs, by rw [hfs, hes, List.append_assoc], by simp [hquiet, hquiet₁],
          by simp [hstatus, hstatus₁], .append hexp hlast₁, by simp [hresp₁, hlen], hmax, ?_, ?_⟩
        · simp only [List.mem_append, hexp₁.mp rfl, or_true, iff_true]
          omega
        · rw [hm₁, hm, readsOf_append, hresp₁, List.append_nil]
      | some u =>
        simp only [Prog.returns_bind, Prog.returns_pure] at hrest
        obtain ⟨b, t₂, -, u', t₃, -, hcontra, -⟩ := hrest
        cases hcontra

/-! ## Drains -/

/-- Both drains: what `take` makes of the bytes read, and the carry. -/
theorem drain_spec {available : UInt8} {r : ReadReg} {take : UInt8 → UciMem → UciMem}
    (hr : r = .uciRespData ∨ r = .uciStatusData) {a : Option Unit}
    (h : (boundedWait D uciWaitIdleBudgetTenths (drainPoll D available r take)).Returns s a s') :
    Since s (fun es m => Quiet es ∧ (∀ r' ≠ r, r' = .uciRespData ∨ r' = .uciStatusData →
        readsOf r' es = []) ∧ (a = none ↔ .expired ∈ es) ∧
      m = (readsOf r es).foldl (fun m b => take b m) s.mem) s' := by
  have hclock : ∀ hour t, r ≠ .uciStatus ∧
      readsOf r [.read .ciaTodHour hour, .read .ciaTodTenths t] = [] := by
    rcases hr with rfl | rfl <;> simp
  have hspec := boundedWait_since
    (J := fun es m => Quiet es ∧ (∀ r' ≠ r, r' = .uciRespData ∨ r' = .uciStatusData →
      readsOf r' es = []) ∧ .expired ∉ es ∧ m = (readsOf r es).foldl (fun m b => take b m) s.mem)
    (Q := fun _ es m => Quiet es ∧ (∀ r' ≠ r, r' = .uciRespData ∨ r' = .uciStatusData →
      readsOf r' es = []) ∧ .expired ∉ es ∧ m = (readsOf r es).foldl (fun m b => take b m) s.mem)
    h ⟨quiet_nil, by simp, by simp, rfl⟩ ?_ ?_
  · cases a with
    | some u =>
      obtain ⟨es, hes, hquiet, hother, hexp, hm⟩ := hspec
      exact ⟨es, hes, hquiet, hother, by simp [hexp], hm⟩
    | none =>
      obtain ⟨es, hes, fs, rfl, hquiet, hother, hexp, hm⟩ := hspec
      refine ⟨_, hes, by simp [hquiet], ?_, by simp, by simpa using hm⟩
      intro r' hne hr'
      simp [hother r' hne hr']
  · rintro es m hour t ⟨hquiet, hother, hexp, rfl⟩
    refine ⟨by simp [hquiet], ?_, by simp [hexp], by simp [(hclock hour t).2]⟩
    rintro r' hne (rfl | rfl)
    · simpa using hother _ hne (Or.inl rfl)
    · simpa using hother _ hne (Or.inr rfl)
  · rintro t a t' ⟨es, hes, hquiet, hother, hexp, hm⟩ hpoll
    simp only [drainPoll, Prog.returns_bind, Prog.returns_ite, Prog.returns_pure] at hpoll
    obtain ⟨v, t₁, hlda, hpoll⟩ := hpoll
    obtain ⟨hlog, hmem⟩ := lda_spec hlda
    have hstat : readsOf r [.read .uciStatus v] = [] := by
      rcases hr with rfl | rfl <;> simp
    rcases hpoll with ⟨-, rfl, rfl⟩ | ⟨-, b, t₂, hldb, u, t₃, hput, rfl, rfl⟩
    · refine ⟨es ++ [.read .uciStatus v], by rw [hlog, hes, List.append_assoc], by simp [hquiet], ?_,
        by simp [hexp], by rw [hmem, hm, readsOf_append, hstat, List.append_nil]⟩
      rintro r' hne (rfl | rfl)
      · simpa using hother _ hne (Or.inl rfl)
      · simpa using hother _ hne (Or.inr rfl)
    · obtain ⟨hlog₂, hm₂⟩ := lda_spec hldb
      obtain ⟨hlog₃, hm₃, -⟩ := store_spec hput
      refine ⟨es ++ [.read .uciStatus v, .read r b], ?_, by simp [hquiet], ?_, by simp [hexp], ?_⟩
      · rw [hlog₃, hlog₂, hlog, hes]
        simp only [List.append_assoc, List.cons_append, List.nil_append]
      · rintro r' hne (rfl | rfl)
        · simpa [Ne.symm hne] using hother _ hne (Or.inl rfl)
        · simpa [Ne.symm hne] using hother _ hne (Or.inr rfl)
      · have hreads : readsOf r [.read .uciStatus v, .read r b] = [b] := by
          rcases hr with rfl | rfl <;> simp
        rw [hm₃, hm₂, hmem, hm, readsOf_append, hreads, List.foldl_append]
        rfl

theorem uciDrainResp_spec {c : Bool} (h : (uciDrainResp D).Returns s c s') :
    Since s (fun es m => Quiet es ∧ readsOf .uciStatusData es = [] ∧ (c = true ↔ .expired ∈ es) ∧
      m = if c then s.mem.timedOut else s.mem) s' := by
  obtain ⟨r, s₁, hwait, hrest⟩ := Prog.returns_bind.mp h
  obtain ⟨es, hes, hquiet, hother, hexp, hm⟩ := drain_spec (Or.inl rfl) hwait
  have hkeep : ∀ bs : List UInt8, bs.foldl (fun m _ => m) s.mem = s.mem := by
    intro bs
    induction bs with
    | nil => rfl
    | cons b bs ih => exact ih
  rw [hkeep] at hm
  have hstatus := hother .uciStatusData (by decide) (Or.inr rfl)
  cases r with
  | some u =>
    obtain ⟨rfl, rfl⟩ := Prog.returns_pure.mp hrest
    exact ⟨es, hes, hquiet, hstatus, by simpa using hexp, hm⟩
  | none =>
    obtain ⟨rfl, hlog, hmem⟩ := waitTimeout_spec hrest
    exact ⟨es, hlog.trans hes, hquiet, hstatus, by simpa using hexp, by rw [hmem, hm]; rfl⟩

/-- The cells after a status line was drained. -/
def UciMem.drained (m : UciMem) (line : List UInt8) : UciMem :=
  dstCommit (line.foldl (fun m b => takeStatus b m) { m with dstIdx := 0 })

theorem uciDrainStatus_spec {c : Bool} (h : (uciDrainStatus D).Returns s c s') :
    Since s (fun es m => Quiet es ∧ readsOf .uciRespData es = [] ∧ (c = true ↔ .expired ∈ es) ∧
      m = if c then (s.mem.drained (readsOf .uciStatusData es)).timedOut
        else s.mem.drained (readsOf .uciStatusData es)) s' := by
  simp only [uciDrainStatus, Prog.returns_bind] at h
  obtain ⟨u, s₀, hzero, r, s₁, hwait, hrest⟩ := h
  obtain ⟨hlog₀, hmem₀, -⟩ := store_spec hzero
  obtain ⟨es, hes, hquiet, hother, hexp, hm⟩ := drain_spec (Or.inr rfl) hwait
  have hresp := hother .uciRespData (by decide) (Or.inl rfl)
  rw [hmem₀] at hm
  rw [hlog₀] at hes
  cases r with
  | some u =>
    simp only [Prog.returns_bind, Prog.returns_pure] at hrest
    obtain ⟨u', s₂, hcommit, rfl, rfl⟩ := hrest
    obtain ⟨hlog₂, hmem₂, -⟩ := store_spec hcommit
    exact ⟨es, hlog₂.trans hes, hquiet, hresp, by simpa using hexp, by rw [hmem₂, hm]; rfl⟩
  | none =>
    simp only [Prog.returns_bind, Prog.returns_pure] at hrest
    obtain ⟨c, s₂, htime, u', s₃, hcommit, rfl, rfl⟩ := hrest
    obtain ⟨rfl, hlog₂, hmem₂⟩ := waitTimeout_spec htime
    obtain ⟨hlog₃, hmem₃, -⟩ := store_spec hcommit
    refine ⟨es, hlog₃.trans (hlog₂.trans hes), hquiet, hresp, by simpa using hexp, ?_⟩
    rw [hmem₃, hmem₂, hm]
    rfl

end C64WireGuard.Uci
