import Mathlib.Data.List.Forall2
import C64WireGuard.Uci.Gate

/-!
# Whose reply is read

A wait that gives up leaves a command behind that the firmware has still to accept, or a reply that
is still being staged. `calls_served` proves that the calls after it do not get to see either: every
byte read in answer to a command is a byte of the reply to that very command, each is read once at
most, and in order.
-/

namespace C64WireGuard.Uci

variable {δ : Type} {D : Device δ} {reply : List UInt8 → List Block → Prop} {spec : δ → Ultimate}

/-! ## Replies -/

/-- A command that was run, with its reply. -/
abbrev Executed : Type := List UInt8 × List Block

/-- The bytes read in answer to a command are from its reply. -/
structure Owned (x : Answered) (r : Executed) : Prop where
  command : x.1 = r.1
  data : (readsOf .uciRespData x.2).Sublist (r.2.flatMap Block.data)
  line : (readsOf .uciStatusData x.2).Sublist (r.2.flatMap Block.line)

/-- What was read, what is presented and what is still to be staged, in this order, are from the
reply. -/
structure Serving (x : Answered) (blocks : List Block) (u : Ultimate) : Prop where
  data : (readsOf .uciRespData x.2 ++ (u.data ++ u.todo.flatMap Block.data)).Sublist
    (blocks.flatMap Block.data)
  line : (readsOf .uciStatusData x.2 ++ (u.line ++ u.todo.flatMap Block.line)).Sublist
    (blocks.flatMap Block.line)

/-- Nothing was read in answer to a command. -/
def Unread (x : Answered) : Prop :=
  readsOf .uciRespData x.2 = [] ∧ readsOf .uciStatusData x.2 = []

theorem Serving.owned {x : Answered} {blocks : List Block} {u : Ultimate} (h : Serving x blocks u) :
    Owned x (x.1, blocks) where
  command := rfl
  data := (List.sublist_append_left _ _).trans h.data
  line := (List.sublist_append_left _ _).trans h.line

/-- **How far the firmware is with the commands of a log**: nothing was pushed yet, the last command
waits to be accepted, or it was run. -/
inductive Served (u₀ : Ultimate) (t : Transcript) (u : Ultimate) : Prop
  | silent (none : t.exchanges = []) (busy : u.cmdBusy = false) (executed : u.executed = u₀.executed)
  | waiting {x : Answered} {past : List Executed} (last : t.last = some x) (busy : u.cmdBusy = true)
      (command : x.1 = u.command) (executed : u.executed = u₀.executed ++ past)
      (earlier : List.Forall₂ Owned t.earlier past) (unread : Unread x)
  | serving {x : Answered} {past : List Executed} {blocks : List Block} (last : t.last = some x)
      (busy : u.cmdBusy = false) (executed : u.executed = u₀.executed ++ (past ++ [(x.1, blocks)]))
      (earlier : List.Forall₂ Owned t.earlier past) (serving : Serving x blocks u)

namespace Served

variable {u₀ u u' : Ultimate} {t : Transcript} {es : List Access} {g g' : Gate} {e : Access}

/-! ### The firmware -/

/-- The firmware answers the command that waits, and stages its own reply. -/
theorem works (h : Served u₀ t u) (hu : u.Sound) (hworks : Ultimate.Works reply u u') :
    Served u₀ t u' := by
  have hqueues : u.state = .busy → u.data = [] ∧ u.line = [] := fun hbusy =>
    hu.queues (by simp [Ultimate.staged, hbusy])
  cases hworks with
  | @accept blocks busy =>
    obtain ⟨hdata, hline⟩ := hqueues (hu.busy busy)
    cases h with
    | silent _ hidle => exact Bool.noConfusion (hidle.symm.trans busy)
    | serving _ hidle => exact Bool.noConfusion (hidle.symm.trans busy)
    | @waiting x past last _ command executed earlier unread =>
      have hexecuted : u.executed ++ [(u.command, blocks)] =
          u₀.executed ++ (past ++ [(x.1, blocks)]) := by
        rw [executed, command, List.append_assoc]
      refine .serving last rfl hexecuted earlier ⟨?_, ?_⟩
      · show (readsOf .uciRespData x.2 ++ (u.data ++ blocks.flatMap Block.data)).Sublist _
        rw [unread.1, hdata]
        exact .refl _
      · show (readsOf .uciStatusData x.2 ++ (u.line ++ blocks.flatMap Block.line)).Sublist _
        rw [unread.2, hline]
        exact .refl _
  | @stage b rest state accepted asked todo =>
    obtain ⟨hdata, hline⟩ := hqueues state
    cases h with
    | silent none busy executed => exact .silent none busy executed
    | waiting _ busy => exact Bool.noConfusion (accepted.symm.trans busy)
    | serving last busy executed earlier serving =>
      refine .serving last busy executed earlier ⟨?_, ?_⟩
      · have hserving := serving.data
        rw [hdata, todo] at hserving
        exact hserving
      · have hserving := serving.line
        rw [hline, todo] at hserving
        exact hserving
  | noticed => cases h with
    | silent none busy executed => exact .silent none busy executed
    | waiting last busy command executed earlier unread =>
      exact .waiting last busy command executed earlier unread
    | serving last busy executed earlier serving =>
      exact .serving last busy executed earlier ⟨serving.data, serving.line⟩

theorem after (h : Served u₀ t u) (n : Nat) : Served u₀ t (u.after n) := by
  cases h with
  | silent none busy executed => exact .silent none busy executed
  | waiting last busy command executed earlier unread =>
    exact .waiting last busy command executed earlier unread
  | serving last busy executed earlier serving =>
    exact .serving last busy executed earlier ⟨serving.data, serving.line⟩

/-- What has happened before an access. -/
theorem before (h : Served u₀ t u) (hu : u.Sound) {n : Nat}
    (hwork : u' = u.after n ∨ Ultimate.Works reply (u.after n) u') :
    Served u₀ t u' ∧ u'.Sound := by
  have hafter : (u.after n).Sound := ⟨hu.busy, hu.queues⟩
  rcases hwork with rfl | hwork
  · exact ⟨h.after n, hafter⟩
  · exact ⟨(h.after n).works hafter hwork, hwork.sound hafter⟩

/-! ### The program -/

theorem unread_append {x : Answered} (h : Unread x) (hes : Still es) :
    Unread (x.1, x.2 ++ es) :=
  ⟨by rw [readsOf_append, h.1, hes.data]; rfl, by rw [readsOf_append, h.2, hes.status]; rfl⟩

/-- Accesses that read nothing of a reply. -/
theorem still (h : Served u₀ t u) (hes : Still es) : Served u₀ (t.answer es) u := by
  cases h with
  | silent none busy executed =>
    refine .silent ?_ busy executed
    have hmap := t.map_answer es
    rw [none] at hmap
    exact List.map_eq_nil_iff.mp hmap
  | @waiting x past last busy command executed earlier unread =>
    refine .waiting (x := (x.1, x.2 ++ es)) ?_ busy command executed earlier
      (unread_append unread hes)
    simp [Transcript.answer, last]
  | @serving x past blocks last busy executed earlier serving =>
    refine .serving (x := (x.1, x.2 ++ es)) ?_ busy executed earlier ⟨?_, ?_⟩
    · simp [Transcript.answer, last]
    · rw [readsOf_append, hes.data, List.append_nil]
      exact serving.data
    · rw [readsOf_append, hes.status, List.append_nil]
      exact serving.line

/-- A write that leaves the queues and the firmware alone. -/
theorem of_eq (h : Served u₀ t u) (hbusy : u'.cmdBusy = u.cmdBusy) (hcommand : u'.command = u.command)
    (hexecuted : u'.executed = u.executed) (hdata : u'.data = u.data) (hline : u'.line = u.line)
    (htodo : u'.todo = u.todo) : Served u₀ t u' := by
  cases h with
  | silent none busy executed =>
    exact .silent none (hbusy.trans busy) (hexecuted.trans executed)
  | waiting last busy command executed earlier unread =>
    exact .waiting last (hbusy.trans busy) (command.trans hcommand.symm) (hexecuted.trans executed)
      earlier unread
  | serving last busy executed earlier serving =>
    refine .serving last (hbusy.trans busy) (hexecuted.trans executed) earlier ⟨?_, ?_⟩
    · rw [hdata, htodo]
      exact serving.data
    · rw [hline, htodo]
      exact serving.line

/-- A block that is given up is not read. -/
theorem nextData (h : Served u₀ t u) : Served u₀ t u.nextData := by
  have hfields : u.nextData.cmdBusy = u.cmdBusy ∧ u.nextData.command = u.command ∧
      u.nextData.executed = u.executed ∧ u.nextData.todo = u.todo ∧
      u.nextData.data.Sublist u.data ∧ u.nextData.line.Sublist u.line := by
    unfold Ultimate.nextData
    split
    · exact ⟨rfl, rfl, rfl, rfl, List.nil_sublist _, List.nil_sublist _⟩
    · split
      · exact ⟨rfl, rfl, rfl, rfl, List.nil_sublist _, List.nil_sublist _⟩
      · exact ⟨rfl, rfl, rfl, rfl, List.nil_sublist _, List.nil_sublist _⟩
    · exact ⟨rfl, rfl, rfl, rfl, .refl _, .refl _⟩
  obtain ⟨hbusy, hcommand, hexecuted, htodo, hdata, hline⟩ := hfields
  cases h with
  | silent none busy executed => exact .silent none (hbusy.trans busy) (hexecuted.trans executed)
  | waiting last busy command executed earlier unread =>
    exact .waiting last (hbusy.trans busy) (command.trans hcommand.symm) (hexecuted.trans executed)
      earlier unread
  | serving last busy executed earlier serving =>
    refine .serving last (hbusy.trans busy) (hexecuted.trans executed) earlier ⟨?_, ?_⟩
    · rw [htodo]
      exact (List.Sublist.append (.refl _) (hdata.append (.refl _))).trans serving.data
    · rw [htodo]
      exact (List.Sublist.append (.refl _) (hline.append (.refl _))).trans serving.line

/-- A byte of data is the next one of the reply. -/
theorem takeData (h : Served u₀ t u) (hu : u.Sound) (hstaged : u.staged = true)
    (hdata : u.data ≠ []) :
    Served u₀ (t.answer [.read .uciRespData (u.read .uciRespData).1]) (u.read .uciRespData).2 := by
  obtain ⟨b, rest, hcons⟩ := List.exists_cons_of_ne_nil hdata
  have hread : u.read .uciRespData = (b, { u with data := rest }) := by
    simp [Ultimate.read, hstaged, hcons]
  rw [hread]
  cases h with
  | silent none busy executed =>
    refine .silent ?_ busy executed
    have hmap := t.map_answer [.read .uciRespData b]
    rw [none] at hmap
    exact List.map_eq_nil_iff.mp hmap
  | waiting _ busy => exact Bool.noConfusion ((hu.not_busy hstaged).symm.trans busy)
  | @serving x past blocks last busy executed earlier serving =>
    refine .serving (x := (x.1, x.2 ++ [.read .uciRespData b])) ?_ busy executed earlier ⟨?_, ?_⟩
    · simp [Transcript.answer, last]
    · have hserving := serving.data
      rw [hcons] at hserving
      simpa using hserving
    · have hserving := serving.line
      simpa using hserving

/-- A byte of the status line is the next one of the reply. -/
theorem takeLine (h : Served u₀ t u) (hu : u.Sound) (hstaged : u.staged = true)
    (hline : u.line ≠ []) :
    Served u₀ (t.answer [.read .uciStatusData (u.read .uciStatusData).1])
      (u.read .uciStatusData).2 := by
  obtain ⟨b, rest, hcons⟩ := List.exists_cons_of_ne_nil hline
  have hread : u.read .uciStatusData = (b, { u with line := rest }) := by
    simp [Ultimate.read, hstaged, hcons]
  rw [hread]
  cases h with
  | silent none busy executed =>
    refine .silent ?_ busy executed
    have hmap := t.map_answer [.read .uciStatusData b]
    rw [none] at hmap
    exact List.map_eq_nil_iff.mp hmap
  | waiting _ busy => exact Bool.noConfusion ((hu.not_busy hstaged).symm.trans busy)
  | @serving x past blocks last busy executed earlier serving =>
    refine .serving (x := (x.1, x.2 ++ [.read .uciStatusData b])) ?_ busy executed earlier ⟨?_, ?_⟩
    · simp [Transcript.answer, last]
    · have hserving := serving.data
      simpa using hserving
    · have hserving := serving.line
      rw [hcons] at hserving
      simpa using hserving

/-- A command byte at an idle interface. -/
theorem put (h : Served u₀ t u) (hidle : u.Idle) (bs : List UInt8) (b : UInt8) :
    Served u₀ { t with bytes := bs } (u.putByte b) := by
  cases h with
  | silent none busy executed => exact .silent none busy executed
  | waiting _ busy => exact Bool.noConfusion (hidle.2.symm.trans busy)
  | serving last busy executed earlier serving =>
    exact .serving last busy executed earlier ⟨serving.data, serving.line⟩

/-- The next command: the one before keeps what was read in answer to it. -/
theorem push (h : Served u₀ t u) (hidle : u.Idle) (hbytes : t.bytes = u.command) :
    Served u₀ t.push u.push := by
  have hpush : u.push = { u with state := .busy, cmdBusy := true, acceptTenths := 0 } := if_pos hidle
  rw [hpush]
  cases h with
  | silent none busy executed =>
    have hearlier : List.Forall₂ Owned t.exchanges [] := by
      rw [none]
      exact .nil
    have hexecuted : u.executed = u₀.executed ++ [] := by
      rw [List.append_nil]
      exact executed
    exact .waiting (x := (t.bytes, [])) rfl rfl hbytes hexecuted hearlier ⟨rfl, rfl⟩
  | waiting _ busy => exact Bool.noConfusion (hidle.2.symm.trans busy)
  | @serving x past blocks last busy executed earlier serving =>
    refine .waiting (x := (t.bytes, [])) rfl rfl hbytes executed ?_ ⟨rfl, rfl⟩
    show List.Forall₂ Owned t.exchanges _
    rw [Transcript.exchanges, last]
    exact List.rel_append earlier (.cons serving.owned .nil)

/-! ### One access -/

theorem harmless_still {e : Access} (h : e.Harmless) : Still [e] := by
  refine ⟨by simpa using h.quiet, ?_, ?_⟩
  all_goals
    cases e with
    | read r v =>
      cases r with
      | uciRespData => exact h.elim
      | uciStatusData => exact h.elim
      | _ => rfl
    | write r v => rfl
    | expired => rfl

/-- An access that may be made at any time. -/
theorem harmless (h : Served u₀ t u) (hu : u.Sound) (he : e.Harmless)
    (hstep : Ultimate.Step reply e u u') : Served u₀ (t.answer [e]) u' := by
  obtain ⟨n, u₁, hwork, hrest⟩ := hstep
  obtain ⟨h₁, -⟩ := h.before hu hwork
  cases e with
  | expired => exact hrest.elim
  | read r v =>
    obtain ⟨-, rfl⟩ := hrest
    have hsame : (u₁.read r).2 = u₁ := by
      cases r with
      | uciRespData => exact he.elim
      | uciStatusData => exact he.elim
      | _ => rfl
    rw [hsame]
    exact h₁.still (harmless_still he)
  | write r v =>
    obtain rfl := hrest
    refine Served.still ?_ (harmless_still he)
    cases r with
    | uciCmdData => exact he.elim
    | uciControl =>
      rcases he with rfl | rfl
      · exact h₁.nextData
      · exact h₁.of_eq rfl rfl rfl rfl rfl rfl
    | _ => exact h₁.of_eq rfl rfl rfl rfl rfl rfl

/-- **One access**: the gate and the queues tell whose byte is read. -/
theorem step (h : Served u₀ (transcript es) u) (hagrees : Agrees u₀ es g u) (hgate : Gate.Step g e g')
    (hstep : Ultimate.Step reply e u u') : Served u₀ (transcript (es ++ [e])) u' := by
  have hadmits := hagrees.admits
  cases hgate with
  | once =>
    rw [transcript_quiet (quiet_read _ _)]
    exact h.harmless hadmits.toSound trivial hstep
  | twice =>
    rw [transcript_quiet (quiet_read _ _)]
    exact h.harmless hadmits.1.toSound trivial hstep
  | dataAv =>
    rw [transcript_quiet (quiet_read _ _)]
    exact h.harmless hadmits.toSound trivial hstep
  | statAv =>
    rw [transcript_quiet (quiet_read _ _)]
    exact h.harmless hadmits.toSound trivial hstep
  | clear =>
    have hharmless : (Access.write .uciControl uciCtrlClrErr).Harmless := Or.inr rfl
    rw [transcript_quiet hharmless.quiet]
    exact h.harmless hadmits.1 hharmless hstep
  | shut he =>
    rw [transcript_quiet he.quiet]
    exact h.harmless hadmits.toSound he hstep
  | relapse he =>
    rw [transcript_quiet he.quiet]
    exact h.harmless hadmits.1.toSound he hstep
  | takeData b =>
    obtain ⟨hrewound, hstaged, hdata⟩ := hadmits
    obtain ⟨n, u₁, hwork, hreads, rfl⟩ := hstep
    obtain ⟨h₁, hsound⟩ := h.before hrewound.toSound hwork
    obtain ⟨hstaged₁, hsame, -⟩ := Ultimate.staged_after hrewound.toSound hwork hstaged
    obtain rfl : b = (u₁.read .uciRespData).1 := hreads
    rw [transcript_quiet (quiet_read _ _)]
    exact h₁.takeData hsound hstaged₁ (hsame ▸ hdata)
  | takeLine b =>
    obtain ⟨hrewound, hstaged, hline⟩ := hadmits
    obtain ⟨n, u₁, hwork, hreads, rfl⟩ := hstep
    obtain ⟨h₁, hsound⟩ := h.before hrewound.toSound hwork
    obtain ⟨hstaged₁, -, hsame⟩ := Ultimate.staged_after hrewound.toSound hwork hstaged
    obtain rfl : b = (u₁.read .uciStatusData).1 := hreads
    rw [transcript_quiet (quiet_read _ _)]
    exact h₁.takeLine hsound hstaged₁ (hsame ▸ hline)
  | put b =>
    obtain ⟨hsound, hidle, -, -⟩ := hadmits
    obtain ⟨n, u₁, hwork, rfl⟩ := hstep
    obtain ⟨h₁, -⟩ := h.before hsound hwork
    have hidle₁ : u₁.Idle := by
      rcases hwork with rfl | hwork
      · exact hidle
      · rw [hwork.idle hidle]
        exact hidle
    rw [transcript_append]
    exact h₁.put hidle₁ _ b
  | push =>
    obtain ⟨hsound, hidle, hcommand, -⟩ := hadmits
    obtain ⟨n, u₁, hwork, rfl⟩ := hstep
    obtain ⟨h₁, -⟩ := h.before hsound hwork
    have hsame : u₁.Idle ∧ u₁.command = u.command := by
      rcases hwork with rfl | hwork
      · exact ⟨hidle, rfl⟩
      · rw [hwork.idle hidle]
        exact ⟨hidle, rfl⟩
    have hbytes : (transcript es).bytes = u₁.command :=
      hagrees.bytes.trans (hcommand.symm.trans hsame.2.symm)
    rw [transcript_append]
    exact h₁.push hsame.1 hbytes

end Served

/-! ## Runs -/

/-- **Every byte that is read belongs to the command it is read for.** In every run of calls, however
they end, the commands of the log and those the firmware has run go together one by one, but for the
last command while it waits to be accepted. -/
theorem calls_served {s s' : State δ} (hD : Implements D reply spec) (hstart : (spec s.dev).Rewound)
    (hbusy : (spec s.dev).cmdBusy = false) (h : Calls D s s') :
    ∃ es past, s'.log = s.log ++ es ∧ (spec s'.dev).executed = (spec s.dev).executed ++ past ∧
      (List.Forall₂ Owned (transcript es).exchanges past ∨
      ∃ earlier x, (transcript es).exchanges = earlier ++ [x] ∧ (spec s'.dev).cmdBusy = true ∧
        List.Forall₂ Owned earlier past ∧ Unread x) := by
  obtain ⟨es, hlog, hsees, hpath⟩ := calls_gated h
  have hfirst : Agrees (spec s.dev) [] .shut (spec s.dev) ∧
      Served (spec s.dev) (transcript []) (spec s.dev) :=
    ⟨.refl hstart, .silent rfl hbusy rfl⟩
  have hlast : Agrees (spec s.dev) es .shut (spec s'.dev) ∧
      Served (spec s.dev) (transcript es) (spec s'.dev) := by
    refine Path.joint (R := fun es g d => Agrees (spec s.dev) es g (spec d) ∧
      Served (spec s.dev) (transcript es) (spec d)) ?_ hfirst hpath hsees
    rintro ds g e g' d d' ⟨hagrees, hserved⟩ hgate hd
    cases hd with
    | next hnext =>
      exact ⟨hagrees.step hgate (hD.step hnext), hserved.step hagrees hgate (hD.step hnext)⟩
    | expired =>
      refine ⟨hagrees.expired hgate, ?_⟩
      rw [transcript_quiet quiet_expired]
      exact hserved.still ⟨by simp, by simp, by simp⟩
  refine ⟨es, ?_⟩
  cases hlast.2 with
  | silent none busy executed =>
    refine ⟨[], hlog, by rw [executed, List.append_nil], Or.inl ?_⟩
    rw [none]
    exact .nil
  | @waiting x past last busy command executed earlier unread =>
    refine ⟨past, hlog, executed, Or.inr ⟨(transcript es).earlier, x, ?_, busy, earlier, unread⟩⟩
    rw [Transcript.exchanges, last]
    rfl
  | @serving x past blocks last busy executed earlier serving =>
    refine ⟨past ++ [(x.1, blocks)], hlog, executed, Or.inl ?_⟩
    rw [Transcript.exchanges, last]
    exact List.rel_append earlier (.cons serving.owned .nil)

/-- A close, with every read of the status torn. -/
theorem calls_served_close : ∃ es past, sampleClosed.log = [] ++ es ∧
    sampleClosed.dev.1.executed = idleUltimate.executed ++ past ∧
    (List.Forall₂ Owned (transcript es).exchanges past ∨
    ∃ earlier x, (transcript es).exchanges = earlier ++ [x] ∧ sampleClosed.dev.1.cmdBusy = true ∧
      List.Forall₂ Owned earlier past ∧ Unread x) :=
  calls_served sampleDevice_implements idleUltimate_rewound rfl sampleClosed_calls

end C64WireGuard.Uci
