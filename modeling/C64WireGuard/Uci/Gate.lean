import C64WireGuard.Uci.Firmware
import C64WireGuard.Uci.Discipline
import C64WireGuard.Uci.Transcript

/-!
# The gate in front of every command

`uci_wait_idle` lets a command through when two reads of the status in a row show an idle interface.
The register tears on the edge from Command Busy to Data Last, so one such read proves nothing, but
the next read of the same interface is exact (`Step.idle_twice`). From there to the push nothing can
happen to the interface that the program does not do itself.

`runs_gated` draws the conclusion for every sequence of calls and every exit on a timeout: each
command byte and each push comes at an idle interface, and the firmware gets the commands that were
pushed, byte for byte and in order.
-/

namespace C64WireGuard.Uci

variable {δ α : Type} {D : Device δ} {reply : List UInt8 → List Block → Prop} {spec : δ → Ultimate}

/-! ## What an access leaves alone -/

namespace Ultimate

variable {u u₁ u' : Ultimate}

/-- The commands that reached the firmware: those it ran, and the one it has not accepted yet. -/
def commands (u : Ultimate) : List (List UInt8) :=
  u.executed.map Prod.fst ++ if u.cmdBusy then [u.command] else []

/-- A command waits to be accepted in the state Command Busy, and the queues hold nothing but a block
that is presented. -/
structure Sound (u : Ultimate) : Prop where
  busy : u.cmdBusy = true → u.state = .busy
  queues : u.staged = false → u.data = [] ∧ u.line = []

/-- The buffer holds the command that waits to be accepted, and nothing when there is none. -/
structure Rewound (u : Ultimate) : Prop extends Sound u where
  command : u.cmdBusy = false → u.command = []

/-- No command comes or goes, and nothing goes wrong. -/
structure Keeps (u u' : Ultimate) : Prop where
  commands : u'.commands = u.commands
  astray : u'.astray = u.astray
  refused : u'.refused = u.refused
  error : u.error = false → u'.error = false

theorem Keeps.trans (h : Keeps u u₁) (h' : Keeps u₁ u') : Keeps u u' where
  commands := h'.commands.trans h.commands
  astray := h'.astray.trans h.astray
  refused := h'.refused.trans h.refused
  error he := h'.error (h.error he)

theorem keeps_after (n : Nat) (u : Ultimate) : Keeps u (u.after n) := ⟨rfl, rfl, rfl, id⟩

theorem Rewound.after (h : u.Rewound) (n : Nat) : (u.after n).Rewound :=
  ⟨⟨h.busy, h.queues⟩, h.command⟩

theorem staged_stage (b : Block) (rest : List Block) (u : Ultimate) :
    (u.stage b rest).staged = true := by
  cases rest with
  | nil => rfl
  | cons b' rest => rfl

/-- No command waits while a block is presented. -/
theorem Sound.not_busy (h : u.Sound) (hstaged : u.staged = true) : u.cmdBusy = false := by
  by_contra hbusy
  rw [Bool.not_eq_false] at hbusy
  simp [staged, h.busy hbusy] at hstaged

/-- The firmware takes commands, and makes none up. -/
theorem Works.keeps (h : Works reply u u') : Keeps u u' := by
  cases h with
  | accept busy =>
    refine ⟨?_, rfl, rfl, id⟩
    simp [Ultimate.commands, Ultimate.accept, busy]
  | stage => exact ⟨rfl, rfl, rfl, id⟩
  | noticed => exact ⟨rfl, rfl, rfl, id⟩

theorem Works.sound (h : Works reply u u') (hu : u.Sound) : u'.Sound := by
  cases h with
  | accept busy => exact ⟨fun h => Bool.noConfusion h, hu.queues⟩
  | stage state accepted =>
    refine ⟨fun h => Bool.noConfusion (accepted.symm.trans h), fun h => ?_⟩
    exact Bool.noConfusion (h.symm.trans (staged_stage _ _ u))
  | noticed => exact ⟨hu.busy, hu.queues⟩

theorem Works.rewound (h : Works reply u u') (hu : u.Rewound) : u'.Rewound := by
  refine ⟨h.sound hu.toSound, ?_⟩
  cases h with
  | accept busy => exact fun _ => rfl
  | stage => exact hu.command
  | noticed => exact hu.command

/-- An idle interface gives the firmware nothing to do. -/
theorem Works.idle (h : Works reply u u') (hu : u.Idle) : u' = { u with dataAcc := false } := by
  obtain ⟨hstate, hbusy⟩ := hu
  cases h with
  | accept busy => exact Bool.noConfusion (hbusy.symm.trans busy)
  | stage state => exact CmdState.noConfusion (hstate.symm.trans state)
  | noticed => rfl

/-- Nor does a block that is presented. -/
theorem Works.presented (h : Works reply u u') (hbusy : u.cmdBusy = false) (hu : u.staged = true) :
    u' = { u with dataAcc := false } := by
  cases h with
  | accept busy => exact Bool.noConfusion (hbusy.symm.trans busy)
  | stage state => simp [staged, state] at hu
  | noticed => rfl

theorem keeps_read (r : ReadReg) (u : Ultimate) :
    Keeps u (u.read r).2 ∧ (u.Rewound → (u.read r).2.Rewound) := by
  have hsame : Keeps u u ∧ (u.Rewound → u.Rewound) := ⟨⟨rfl, rfl, rfl, id⟩, id⟩
  cases r with
  | uciRespData =>
    simp only [read]
    split
    · rename_i hstaged
      refine ⟨⟨rfl, rfl, rfl, id⟩, fun h => ⟨⟨h.busy, fun hnot => ?_⟩, h.command⟩⟩
      exact Bool.noConfusion (hnot.symm.trans hstaged)
    · exact hsame
  | uciStatusData =>
    simp only [read]
    split
    · rename_i hstaged
      refine ⟨⟨rfl, rfl, rfl, id⟩, fun h => ⟨⟨h.busy, fun hnot => ?_⟩, h.command⟩⟩
      exact Bool.noConfusion (hnot.symm.trans hstaged)
    · exact hsame
  | uciStatus => exact hsame
  | uciId => exact hsame
  | ciaTodHour => exact hsame
  | ciaTodTenths => exact hsame
  | ciaCrb => exact hsame

/-- No queue is presented at an idle interface. -/
theorem read_idle (r : ReadReg) (hu : u.Idle) : (u.read r).2 = u := by
  have hstaged : u.staged = false := by simp [staged, hu.1]
  cases r with
  | uciRespData => simp [read, hstaged]
  | uciStatusData => simp [read, hstaged]
  | uciStatus => rfl
  | uciId => rfl
  | ciaTodHour => rfl
  | ciaTodTenths => rfl
  | ciaCrb => rfl

/-! ## What a read shows -/

/-- `ERROR` is shown as it is. -/
theorem Step.status_error {v : UInt8} (h : Step reply (.read .uciStatus v) u u') :
    v &&& uciStatError = 0 ↔ u.error = false := by
  obtain ⟨n, u₁, hwork, ⟨b, htorn, rfl⟩, -⟩ := h
  have herror : u₁.error = u.error := by
    rcases hwork with rfl | hwork
    · rfl
    · cases hwork <;> rfl
  have hb : b.error = u.error := by
    rcases htorn.error with hb | hb
    · exact hb
    · exact hb.trans herror
  rw [StatusBits.byte_error, hb]

theorem idle_of_bits (h₁ : u.status.state1 = false) (h₀ : u.status.state0 = false)
    (hbusy : u.cmdBusy = false) : u.Idle := by
  simp only [status, staged, decide_eq_false_iff_not, not_or] at h₁ h₀
  refine ⟨?_, hbusy⟩
  cases hstate : u.state with
  | idle => rfl
  | busy => exact absurd hstate h₀.1
  | dataLast => exact absurd hstate h₁.1
  | dataMore => exact absurd hstate h₁.2

/-- A read that shows an idle interface was made at one, or fell on the edge to a staged block. -/
theorem Step.idle_once {v : UInt8} (hu : u.Sound) (h : Step reply (.read .uciStatus v) u u')
    (hv : IdleStatus v) :
    u'.Idle ∨ u'.staged = true ∧ u'.cmdBusy = false := by
  obtain ⟨n, u₁, hwork, ⟨b, htorn, rfl⟩, rfl⟩ := h
  obtain ⟨h₁, h₀, hbusy⟩ := (StatusBits.byte_idle b).mp hv
  rcases hwork with rfl | hwork
  · rw [htorn.same] at h₁ h₀ hbusy
    exact Or.inl (idle_of_bits h₁ h₀ hbusy)
  · cases hwork with
    | accept busy =>
      -- `STATE` is Command Busy before and after.
      have hstate : u.state = .busy := hu.busy busy
      have hshown : b.state0 = true := by
        rcases htorn.state0 with hb | hb
        · rw [hb]; simp [status, Ultimate.after, hstate]
        · rw [hb]; simp [status, Ultimate.accept, Ultimate.after, hstate]
      rw [hshown] at h₀
      cases h₀
    | stage state accepted => exact Or.inr ⟨staged_stage _ _ _, accepted⟩
    | noticed =>
      have hbits : b.state1 = u.status.state1 ∧ b.state0 = u.status.state0 ∧
          b.cmdBusy = u.cmdBusy := by
        exact ⟨htorn.state1.elim id id, htorn.state0.elim id id, htorn.cmdBusy.elim id id⟩
      rw [hbits.1] at h₁
      rw [hbits.2.1] at h₀
      rw [hbits.2.2] at hbusy
      exact Or.inl (idle_of_bits h₁ h₀ hbusy)

/-- **Two reads in a row that show an idle interface** were not both torn. -/
theorem Step.idle_twice {w : UInt8} (hu : u.Idle ∨ u.staged = true ∧ u.cmdBusy = false)
    (h : Step reply (.read .uciStatus w) u u') (hw : IdleStatus w) : u'.Idle := by
  obtain ⟨n, u₁, hwork, ⟨b, htorn, rfl⟩, rfl⟩ := h
  rcases hu with hidle | ⟨hstaged, hbusy⟩
  · rcases hwork with rfl | hwork
    · exact hidle
    · rw [hwork.idle hidle]
      exact hidle
  · -- From a staged block the firmware can only take notice, and `state(1)` is seen.
    have hstaged' : u'.staged = true := by
      rcases hwork with rfl | hwork
      · exact hstaged
      · rw [hwork.presented hbusy hstaged]
        exact hstaged
    have hshown : b.state1 = true := by
      rcases htorn.state1 with hb | hb
      · exact hb.trans hstaged
      · exact hb.trans hstaged'
    rw [((StatusBits.byte_idle b).mp hw).1] at hshown
    cases hshown

/-- A block stays in the queues until the program takes it out. -/
theorem staged_after {n : Nat} (hu : u.Sound) (hwork : u' = u.after n ∨ Works reply (u.after n) u')
    (hstaged : u.staged = true) : u'.staged = true ∧ u'.data = u.data ∧ u'.line = u.line := by
  rcases hwork with rfl | hwork
  · exact ⟨hstaged, rfl, rfl⟩
  · rw [hwork.presented (hu.not_busy hstaged) hstaged]
    exact ⟨hstaged, rfl, rfl⟩

theorem status_dataAv (u : Ultimate) : u.status.dataAv = true ↔ u.staged = true ∧ u.data ≠ [] := by
  simp [status]

theorem status_statAv (u : Ultimate) : u.status.statAv = true ↔ u.staged = true ∧ u.line ≠ [] := by
  simp [status]

/-- A byte of data that is announced is there. -/
theorem Step.data_announced {v : UInt8} (h : Step reply (.read .uciStatus v) u u') (hu : u.Sound)
    (hv : v &&& uciStatDataAv ≠ 0) : u'.staged = true ∧ u'.data ≠ [] := by
  obtain ⟨n, u₁, hwork, ⟨b, htorn, rfl⟩, rfl⟩ := h
  have hshown := (StatusBits.byte_dataAv b).mp hv
  rcases htorn.dataAv with hb | hb
  · obtain ⟨hstaged, hdata⟩ := (status_dataAv (u.after n)).mp (hb.symm.trans hshown)
    obtain ⟨hstaged', hsame, -⟩ := staged_after hu hwork hstaged
    exact ⟨hstaged', hsame ▸ hdata⟩
  · exact (status_dataAv _).mp (hb.symm.trans hshown)

/-- A byte of the status line that is announced is there. -/
theorem Step.line_announced {v : UInt8} (h : Step reply (.read .uciStatus v) u u') (hu : u.Sound)
    (hv : v &&& uciStatStatAv ≠ 0) : u'.staged = true ∧ u'.line ≠ [] := by
  obtain ⟨n, u₁, hwork, ⟨b, htorn, rfl⟩, rfl⟩ := h
  have hshown := (StatusBits.byte_statAv b).mp hv
  rcases htorn.statAv with hb | hb
  · obtain ⟨hstaged, hline⟩ := (status_statAv (u.after n)).mp (hb.symm.trans hshown)
    obtain ⟨hstaged', -, hsame⟩ := staged_after hu hwork hstaged
    exact ⟨hstaged', hsame ▸ hline⟩
  · exact (status_statAv _).mp (hb.symm.trans hshown)

/-! ## One access -/

theorem Step.read_keeps {r : ReadReg} {v : UInt8} (h : Step reply (.read r v) u u')
    (hu : u.Rewound) : Keeps u u' ∧ u'.Rewound := by
  obtain ⟨n, u₁, hwork, -, rfl⟩ := h
  obtain ⟨hread, hrewound⟩ := keeps_read r u₁
  rcases hwork with rfl | hwork
  · exact ⟨(keeps_after n u).trans hread, hrewound (hu.after n)⟩
  · exact ⟨((keeps_after n u).trans hwork.keeps).trans hread,
      hrewound (hwork.rewound (hu.after n))⟩

/-- What a write finds, after what has happened since the access before. -/
theorem Step.write_finds {r : WriteReg} {v : UInt8} (h : Step reply (.write r v) u u')
    (hu : u.Rewound) : ∃ u₁, Keeps u u₁ ∧ u₁.Rewound ∧ u' = u₁.write r v := by
  obtain ⟨n, u₁, hwork, rfl⟩ := h
  refine ⟨u₁, ?_, ?_, rfl⟩
  · rcases hwork with rfl | hwork
    · exact keeps_after n u
    · exact (keeps_after n u).trans hwork.keeps
  · rcases hwork with rfl | hwork
    · exact hu.after n
    · exact hwork.rewound (hu.after n)

/-- An idle interface is found idle. -/
theorem Step.write_idle {r : WriteReg} {v : UInt8} (h : Step reply (.write r v) u u')
    (hsound : u.Sound) (hu : u.Idle) :
    ∃ u₁, Keeps u u₁ ∧ u₁.Sound ∧ u₁.Idle ∧ u₁.command = u.command ∧ u' = u₁.write r v := by
  obtain ⟨n, u₁, hwork, rfl⟩ := h
  have hafter : (u.after n).Sound := ⟨hsound.busy, hsound.queues⟩
  rcases hwork with rfl | hwork
  · exact ⟨_, keeps_after n u, hafter, hu, rfl, rfl⟩
  · refine ⟨u₁, (keeps_after n u).trans hwork.keeps, hwork.sound hafter, ?_, ?_, rfl⟩
    · rw [hwork.idle hu]
      exact hu
    · rw [hwork.idle hu]
      rfl

theorem nextData_keeps (hu : u.Rewound) : Keeps u u.nextData ∧ u.nextData.Rewound := by
  unfold nextData
  split
  · rename_i hlast
    have hbusy := hu.not_busy (by simp [staged, hlast])
    refine ⟨⟨rfl, rfl, rfl, id⟩, ⟨fun h => ?_, fun _ => ⟨rfl, rfl⟩⟩, hu.command⟩
    exact Bool.noConfusion (hbusy.symm.trans h)
  · split
    · exact ⟨⟨rfl, rfl, rfl, id⟩, ⟨fun _ => rfl, fun _ => ⟨rfl, rfl⟩⟩, hu.command⟩
    · exact ⟨⟨rfl, rfl, rfl, id⟩, ⟨fun _ => rfl, fun _ => ⟨rfl, rfl⟩⟩, hu.command⟩
  · exact ⟨⟨rfl, rfl, rfl, id⟩, hu⟩

theorem keeps_clrErr (u : Ultimate) : Keeps u { u with error := false } := ⟨rfl, rfl, rfl, fun _ => rfl⟩

/-- **What may be done at any time** takes no command to the firmware and none from it. -/
theorem Step.harmless {e : Access} (h : Step reply e u u') (hu : u.Rewound) (he : e.Harmless) :
    Keeps u u' ∧ u'.Rewound := by
  cases e with
  | read r v => exact h.read_keeps hu
  | expired =>
    obtain ⟨n, u₁, -, hfalse⟩ := h
    exact hfalse.elim
  | write r v =>
    obtain ⟨u₁, hkeeps, hu₁, rfl⟩ := h.write_finds hu
    have hsame : Keeps u u₁ ∧ u₁.Rewound := ⟨hkeeps, hu₁⟩
    cases r with
    | uciCmdData => exact he.elim
    | uciControl =>
      rcases he with rfl | rfl
      · obtain ⟨hnext, hrewound⟩ := nextData_keeps hu₁
        exact ⟨hkeeps.trans hnext, hrewound⟩
      · exact ⟨hkeeps.trans (keeps_clrErr u₁), ⟨hu₁.busy, hu₁.queues⟩, hu₁.command⟩
    | ciaTodTenths => exact ⟨hkeeps.trans ⟨rfl, rfl, rfl, id⟩, ⟨hu₁.busy, hu₁.queues⟩, hu₁.command⟩
    | ciaTodHour => exact hsame
    | ciaTodMin => exact hsame
    | ciaTodSec => exact hsame
    | ciaCrb => exact hsame

end Ultimate

/-! ## The interface behind the gate -/

/-- The bytes of the command that has been begun. -/
def Gate.bytes : Gate → List UInt8
  | .opened _ bs => bs
  | _ => []

/-- What the program may conclude from its accesses. -/
def Gate.Admits : Gate → Ultimate → Prop
  | .shut, u => u.Rewound
  | .ajar clear, u =>
    u.Rewound ∧ (u.Idle ∨ u.staged = true ∧ u.cmdBusy = false) ∧ (clear = true → u.error = false)
  | .opened clear bs, u =>
    u.Sound ∧ u.Idle ∧ u.command = bs ∧ (clear = true → u.error = false)
  | .data, u => u.Rewound ∧ u.staged = true ∧ u.data ≠ []
  | .line, u => u.Rewound ∧ u.staged = true ∧ u.line ≠ []

/-- The log `es` and the interface agree: the firmware got the commands of the log, no byte or push
came at a bad time, and after a push no error is ever shown. -/
structure Agrees (u₀ : Ultimate) (es : List Access) (g : Gate) (u : Ultimate) : Prop where
  admits : g.Admits u
  bytes : (transcript es).bytes = g.bytes
  commands : u.commands = u₀.commands ++ (transcript es).exchanges.map Prod.fst
  astray : u.astray = u₀.astray
  refused : u.refused = u₀.refused
  error : (transcript es).exchanges ≠ [] → u.error = false
  built : ∀ x ∈ (transcript es).exchanges, Built x.1
  clean : ∀ x ∈ (transcript es).exchanges, ∀ v, .read .uciStatus v ∈ x.2 → v &&& uciStatError = 0

theorem Transcript.map_answer (t : Transcript) (es : List Access) :
    (t.answer es).exchanges.map Prod.fst = t.exchanges.map Prod.fst := by
  obtain ⟨bytes, earlier, last⟩ := t
  cases last with
  | none => rfl
  | some x => simp [answer, exchanges]

theorem Transcript.mem_answer {t : Transcript} {es : List Access} {x : Answered}
    (h : x ∈ (t.answer es).exchanges) :
    ∃ y ∈ t.exchanges, x.1 = y.1 ∧ ∀ e ∈ x.2, e ∈ y.2 ∨ e ∈ es := by
  obtain ⟨bytes, earlier, last⟩ := t
  cases last with
  | none => exact ⟨x, h, rfl, fun e he => Or.inl he⟩
  | some z =>
    simp only [answer, exchanges, Option.map_some, Option.toList_some, List.mem_append,
      List.mem_singleton] at h
    rcases h with h | rfl
    · exact ⟨x, by simp [exchanges, h], rfl, fun e he => Or.inl he⟩
    · exact ⟨z, by simp [exchanges], rfl, fun e he => List.mem_append.mp he⟩

theorem transcript_quiet {e : Access} (he : e.Quiet) (es : List Access) :
    transcript (es ++ [e]) = (transcript es).answer [e] := by
  rw [transcript_append, Transcript.see_quiet (by simpa using he)]

theorem Access.Harmless.quiet {e : Access} (h : e.Harmless) : e.Quiet := by
  cases e with
  | read r v => trivial
  | expired => trivial
  | write r v =>
    cases r with
    | uciControl =>
      rcases h with rfl | rfl
      · show uciCtrlNextData ≠ uciCtrlPushCmd
        decide
      · show uciCtrlClrErr ≠ uciCtrlPushCmd
        decide
    | uciCmdData => exact h.elim
    | ciaTodHour => trivial
    | ciaTodMin => trivial
    | ciaTodSec => trivial
    | ciaTodTenths => trivial
    | ciaCrb => trivial

namespace Agrees

variable {u₀ u u' : Ultimate} {es : List Access} {g g' : Gate} {e : Access}

/-- Before the first access. -/
theorem refl (h : u.Rewound) : Agrees u [] .shut u :=
  ⟨h, rfl, (List.append_nil _).symm, rfl, rfl, fun hne => absurd rfl hne,
    fun _ hx => absurd hx List.not_mem_nil, fun _ hx => absurd hx List.not_mem_nil⟩

/-- An access that carries nothing to the firmware. -/
theorem quiet (h : Agrees u₀ es g u) (he : e.Quiet) (hbytes : g'.bytes = g.bytes)
    (hkeeps : u.Keeps u') (hadmits : g'.Admits u')
    (hshown : ∀ v, e = .read .uciStatus v → u.error = false → v &&& uciStatError = 0) :
    Agrees u₀ (es ++ [e]) g' u' := by
  have hseen := transcript_quiet he es
  have hsome : ∀ {x : Answered}, x ∈ ((transcript es).answer [e]).exchanges → u.error = false := by
    intro x hx
    obtain ⟨y, hy, -⟩ := Transcript.mem_answer hx
    exact h.error (List.ne_nil_of_mem hy)
  refine ⟨hadmits, ?_, ?_, hkeeps.astray.trans h.astray, hkeeps.refused.trans h.refused, ?_, ?_, ?_⟩
  · rw [hseen, hbytes]
    exact h.bytes
  · rw [hseen, Transcript.map_answer, hkeeps.commands]
    exact h.commands
  · intro hne
    rw [hseen] at hne
    obtain ⟨x, hx⟩ := List.exists_mem_of_ne_nil _ hne
    exact hkeeps.error (hsome hx)
  · intro x hx
    rw [hseen] at hx
    obtain ⟨y, hy, heq, -⟩ := Transcript.mem_answer hx
    rw [heq]
    exact h.built y hy
  · intro x hx v hv
    rw [hseen] at hx
    obtain ⟨y, hy, -, hmem⟩ := Transcript.mem_answer hx
    rcases hmem _ hv with hv | hv
    · exact h.clean y hy v hv
    · exact hshown v (List.mem_singleton.mp hv).symm (hsome hx)

/-- A command byte. -/
theorem put {bs : List UInt8} {b : UInt8} (h : Agrees u₀ es (.opened true bs) u)
    (hstep : Ultimate.Step reply (.write .uciCmdData b) u u') :
    Agrees u₀ (es ++ [.write .uciCmdData b]) (.opened true (bs ++ [b])) u' := by
  obtain ⟨hsound, hidle, hcommand, hclear⟩ := h.admits
  obtain ⟨u₁, hkeeps, hsound₁, hidle₁, hcommand₁, rfl⟩ := hstep.write_idle hsound hidle
  have hseen : transcript (es ++ [.write .uciCmdData b]) =
      { transcript es with bytes := (transcript es).bytes ++ [b] } := by
    rw [transcript_append]
    rfl
  have herror : u₁.error = false := hkeeps.error (hclear rfl)
  have hcommands : (u₁.putByte b).commands = u₁.commands := by
    simp [Ultimate.commands, Ultimate.putByte, hidle₁.2]
  have hastray : (u₁.putByte b).astray = u₁.astray := if_pos hidle₁
  refine ⟨⟨⟨hsound₁.busy, hsound₁.queues⟩, hidle₁, ?_, fun _ => herror⟩, ?_, ?_, hastray.trans (hkeeps.astray.trans h.astray),
    hkeeps.refused.trans h.refused, fun _ => herror, ?_, ?_⟩
  · show u₁.command ++ [b] = bs ++ [b]
    rw [hcommand₁, hcommand]
  · rw [hseen]
    show (transcript es).bytes ++ [b] = bs ++ [b]
    rw [h.bytes]
    rfl
  · rw [hseen]
    exact hcommands.trans (hkeeps.commands.trans h.commands)
  · rw [hseen]
    exact h.built
  · rw [hseen]
    exact h.clean

/-- A push. -/
theorem push {bs : List UInt8} (h : Agrees u₀ es (.opened true bs) u) (hbuilt : Built bs)
    (hstep : Ultimate.Step reply (.write .uciControl uciCtrlPushCmd) u u') :
    Agrees u₀ (es ++ [.write .uciControl uciCtrlPushCmd]) .shut u' := by
  obtain ⟨hsound, hidle, hcommand, hclear⟩ := h.admits
  obtain ⟨u₁, hkeeps, hsound₁, hidle₁, hcommand₁, rfl⟩ := hstep.write_idle hsound hidle
  have hqueues : u₁.data = [] ∧ u₁.line = [] := hsound₁.queues (by simp [Ultimate.staged, hidle₁.1])
  have hpushed : u₁.write .uciControl uciCtrlPushCmd =
      { u₁ with state := .busy, cmdBusy := true, acceptTenths := 0 } := if_pos hidle₁
  have hseen : transcript (es ++ [.write .uciControl uciCtrlPushCmd]) =
      ⟨[], (transcript es).exchanges, some (bs, [])⟩ := by
    have hbytes : (transcript es).bytes = bs := h.bytes
    rw [transcript_append, ← hbytes]
    rfl
  have hexchanges : (transcript (es ++ [.write .uciControl uciCtrlPushCmd])).exchanges =
      (transcript es).exchanges ++ [(bs, [])] := by
    rw [hseen]
    rfl
  have herror : u₁.error = false := hkeeps.error (hclear rfl)
  have hcommands : ({ u₁ with state := .busy, cmdBusy := true, acceptTenths := 0 } :
      Ultimate).commands = u₁.commands ++ [bs] := by
    simp [Ultimate.commands, hidle₁.2, hcommand₁, hcommand]
  rw [hpushed]
  refine ⟨⟨⟨fun _ => rfl, fun _ => hqueues⟩, fun hnot => Bool.noConfusion hnot⟩, by rw [hseen]; rfl, ?_,
    hkeeps.astray.trans h.astray, hkeeps.refused.trans h.refused, fun _ => herror, ?_, ?_⟩
  · rw [hcommands, hkeeps.commands, h.commands, hexchanges]
    simp
  · intro x hx
    rw [hexchanges, List.mem_append, List.mem_singleton] at hx
    rcases hx with hx | rfl
    · exact h.built x hx
    · exact hbuilt
  · intro x hx v hv
    rw [hexchanges, List.mem_append, List.mem_singleton] at hx
    rcases hx with hx | rfl
    · exact h.clean x hx v hv
    · cases hv

/-- What an access gets to see of the error. -/
theorem shown (hstep : Ultimate.Step reply e u u') (v : UInt8) (he : e = .read .uciStatus v)
    (hu : u.error = false) : v &&& uciStatError = 0 := by
  subst he
  exact hstep.status_error.mpr hu

/-- **The gate and the interface go on together.** -/
theorem step (h : Agrees u₀ es g u) (hgate : Gate.Step g e g') (hstep : Ultimate.Step reply e u u') :
    Agrees u₀ (es ++ [e]) g' u' := by
  cases hgate with
  | @once v hv =>
    have hu : u.Rewound := h.admits
    obtain ⟨hkeeps, hrewound⟩ := hstep.read_keeps hu
    refine h.quiet trivial rfl hkeeps ⟨hrewound, hstep.idle_once hu.toSound hv, fun hclear => ?_⟩
      (shown hstep)
    exact hkeeps.error (hstep.status_error.mp (of_decide_eq_true hclear))
  | twice hv =>
    obtain ⟨hu, hseen, hclear⟩ := h.admits
    obtain ⟨hkeeps, hrewound⟩ := hstep.read_keeps hu
    have hidle := hstep.idle_twice hseen hv
    exact h.quiet trivial rfl hkeeps
      ⟨hrewound.toSound, hidle, hrewound.command hidle.2, fun hc => hkeeps.error (hclear hc)⟩
      (shown hstep)
  | clear =>
    obtain ⟨hsound, hidle, hcommand, -⟩ := h.admits
    obtain ⟨u₁, hkeeps, hsound₁, hidle₁, hcommand₁, rfl⟩ := hstep.write_idle hsound hidle
    have hharmless : (Access.write .uciControl uciCtrlClrErr).Harmless := Or.inr rfl
    exact h.quiet hharmless.quiet rfl (hkeeps.trans (Ultimate.keeps_clrErr u₁))
      ⟨⟨hsound₁.busy, hsound₁.queues⟩, hidle₁, hcommand₁.trans hcommand, fun _ => rfl⟩ (shown hstep)
  | put b => exact h.put hstep
  | push hbuilt => exact h.push hbuilt hstep
  | dataAv hv =>
    obtain ⟨hkeeps, hrewound⟩ := hstep.read_keeps h.admits
    exact h.quiet trivial rfl hkeeps ⟨hrewound, hstep.data_announced h.admits.toSound hv⟩ (shown hstep)
  | statAv hv =>
    obtain ⟨hkeeps, hrewound⟩ := hstep.read_keeps h.admits
    exact h.quiet trivial rfl hkeeps ⟨hrewound, hstep.line_announced h.admits.toSound hv⟩ (shown hstep)
  | takeData b =>
    obtain ⟨hkeeps, hrewound⟩ := hstep.read_keeps h.admits.1
    exact h.quiet trivial rfl hkeeps hrewound (shown hstep)
  | takeLine b =>
    obtain ⟨hkeeps, hrewound⟩ := hstep.read_keeps h.admits.1
    exact h.quiet trivial rfl hkeeps hrewound (shown hstep)
  | shut he =>
    obtain ⟨hkeeps, hrewound⟩ := hstep.harmless h.admits he
    exact h.quiet he.quiet rfl hkeeps hrewound (shown hstep)
  | relapse he =>
    obtain ⟨hkeeps, hrewound⟩ := hstep.harmless h.admits.1 he
    exact h.quiet he.quiet rfl hkeeps hrewound (shown hstep)

/-- The device stands still when a wait gives up. -/
theorem expired (h : Agrees u₀ es g u) (hgate : Gate.Step g .expired g') :
    Agrees u₀ (es ++ [.expired]) g' u := by
  have hkeeps : u.Keeps u := ⟨rfl, rfl, rfl, id⟩
  cases hgate with
  | shut => exact h.quiet trivial rfl hkeeps h.admits fun v hv => Access.noConfusion hv
  | relapse => exact h.quiet trivial rfl hkeeps h.admits.1 fun v hv => Access.noConfusion hv

end Agrees

/-! ## Runs -/

theorem agrees_of_path {d d' : δ} {es : List Access} (hD : Implements D reply spec)
    (hstart : (spec d).Rewound) (hsees : Path D.Sees d es d')
    (hpath : Path Gate.Step .shut es .shut) : Agrees (spec d) es .shut (spec d') := by
  refine Path.joint (R := fun es g e => Agrees (spec d) es g (spec e)) ?_ (.refl hstart) hpath hsees
  intro ds g e g' d d' hagrees hgate hd
  cases hd with
  | next hnext => exact hagrees.step hgate (hD.step hnext)
  | expired => exact hagrees.expired hgate

/-- **What reaches the firmware.** In every run of calls, from any interface whose buffer holds no
stray byte, the firmware gets the commands of the log and nothing else, every one of them whole, no
command byte comes at a bad time, no push is refused, and no error is seen after a push. -/
theorem calls_agree {s s' : State δ} (hD : Implements D reply spec) (hstart : (spec s.dev).Rewound)
    (h : Calls D s s') :
    ∃ es, s'.log = s.log ++ es ∧ Agrees (spec s.dev) es .shut (spec s'.dev) := by
  obtain ⟨es, hlog, hsees, hpath⟩ := calls_gated h
  exact ⟨es, hlog, agrees_of_path hD hstart hsees hpath⟩

/-! ## A sample -/

/-- An interface after bring-up. -/
def idleUltimate : Ultimate where
  state := .idle
  cmdBusy := false
  dataAcc := false
  error := false
  command := []
  data := []
  line := []
  todo := []
  asked := false
  clock := 0
  executed := []
  astray := []
  refused := 0
  acceptTenths := 0
  stageTenths := 0

theorem idleUltimate_rewound : idleUltimate.Rewound :=
  ⟨⟨fun h => Bool.noConfusion h, fun _ => ⟨rfl, rfl⟩⟩, fun _ => rfl⟩

/-- The firmware takes its steps in turn. -/
def sampleWork : Nat → Work
  | 0 => .accept
  | 1 => .stage
  | _ => .noticed

/-- Between two accesses there is always a step, and every read falls on it. -/
def sampleMoves (n : Nat) : Move :=
  ⟨0, some (sampleWork (n % 3)), ⟨true, false, true, false, false, true, false⟩⟩

/-- Every command is answered by its length, and by `00` in the status line. -/
def sampleAnswer (cmd : List UInt8) : List Block := [⟨[cmd.length.toUInt8], [0x30, 0x30]⟩]

/-- The device of the sample. -/
def sampleDevice : Device (Ultimate × Nat) := ultimate sampleAnswer sampleMoves

theorem sampleDevice_implements :
    Implements sampleDevice (fun cmd blocks => blocks = sampleAnswer cmd) Prod.fst :=
  ultimate_implements (fun _ => List.cons_ne_nil _ _) sampleMoves

/-- The state before a close. -/
def sampleOpen : State (Ultimate × Nat) := ⟨openMem, (idleUltimate, 0), []⟩

theorem sampleClose_returns : ((netUdpClose sampleDevice).run 30 sampleOpen).isSome := by
  decide +kernel

/-- The state after it. -/
def sampleClosed : State (Ultimate × Nat) :=
  (((netUdpClose sampleDevice).run 30 sampleOpen).get sampleClose_returns).2

theorem sampleClosed_calls : Calls sampleDevice sampleOpen sampleClosed :=
  .call .start .netUdpClose (Prog.returns_get sampleClose_returns)

/-- A close, with every read of the status torn. -/
theorem calls_agree_close : ∃ es, sampleClosed.log = [] ++ es ∧
    Agrees idleUltimate es .shut sampleClosed.dev.1 :=
  calls_agree sampleDevice_implements idleUltimate_rewound sampleClosed_calls

end C64WireGuard.Uci
