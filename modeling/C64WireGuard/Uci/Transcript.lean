import C64WireGuard.Uci.ChunkedDatagram
import C64WireGuard.Uci.Receive

/-!
# Commands and their answers

A log cut at its pushes: each command that was pushed, with what was read and written until the next
one (`exchanges`). From it the connection of a moment is told (`Wire`): the last `UDP_CONNECT` with the
first byte of its reply, and every write with the connection it was made under.
-/

namespace C64WireGuard.Uci

variable {δ : Type} {D : Device δ} {s s' : State δ}

/-! ## Cutting a log -/

/-- A command, and the accesses up to the next push. -/
abbrev Answered : Type := List UInt8 × List Access

/-- A log so far: the command bytes since the last push, and the commands pushed. The last one is
still being answered. -/
structure Transcript where
  bytes : List UInt8
  earlier : List Answered
  last : Option Answered

/-- Before the first access. -/
def Transcript.start : Transcript := ⟨[], [], none⟩

/-- More of the answer to the last command. -/
def Transcript.answer (t : Transcript) (es : List Access) : Transcript :=
  { t with last := t.last.map fun x => (x.1, x.2 ++ es) }

/-- The commands with their answers. -/
def Transcript.exchanges (t : Transcript) : List Answered := t.earlier ++ t.last.toList

/-- A push. -/
def Transcript.push (t : Transcript) : Transcript := ⟨[], t.exchanges, some (t.bytes, [])⟩

/-- One access more. -/
def Transcript.see (t : Transcript) : Access → Transcript
  | .write .uciCmdData b => { t with bytes := t.bytes ++ [b] }
  | .write .uciControl v =>
    if v = uciCtrlPushCmd then t.push else t.answer [.write .uciControl v]
  | e => t.answer [e]

/-- The transcript of a log. -/
def transcript (log : List Access) : Transcript := log.foldl Transcript.see .start

theorem transcript_append (log es : List Access) :
    transcript (log ++ es) = es.foldl Transcript.see (transcript log) := List.foldl_append

theorem Transcript.answer_nil (t : Transcript) : t.answer [] = t := by
  obtain ⟨bytes, earlier, last⟩ := t
  cases last with
  | none => rfl
  | some x => simp [answer]

theorem Transcript.answer_answer (t : Transcript) (es fs : List Access) :
    (t.answer es).answer fs = t.answer (es ++ fs) := by
  obtain ⟨bytes, earlier, last⟩ := t
  cases last with
  | none => rfl
  | some x => simp [answer]

theorem Transcript.see_quiet {es : List Access} (h : Quiet es) (t : Transcript) :
    es.foldl see t = t.answer es := by
  induction es generalizing t with
  | nil => exact t.answer_nil.symm
  | cons e es ih =>
    rw [quiet_cons] at h
    have hsee : t.see e = t.answer [e] := by
      match e, h.1 with
      | .read _ _, _ => rfl
      | .expired, _ => rfl
      | .write .uciControl v, hv => exact if_neg hv
      | .write .ciaTodHour _, _ => rfl
      | .write .ciaTodMin _, _ => rfl
      | .write .ciaTodSec _, _ => rfl
      | .write .ciaTodTenths _, _ => rfl
      | .write .ciaCrb _, _ => rfl
    rw [List.foldl_cons, hsee, ih h.2, answer_answer, List.singleton_append]

theorem Transcript.see_commandWrites (bs : List UInt8) (t : Transcript) :
    (commandWrites bs).foldl see t = { t with bytes := t.bytes ++ bs } := by
  induction bs generalizing t with
  | nil => rw [List.append_nil]; rfl
  | cons b bs ih =>
    show (commandWrites bs).foldl see (t.see (.write .uciCmdData b)) = _
    rw [ih]
    simp [see]

/-- **An exchange adds one command or none**, and reads the answer to its own only. -/
theorem Transcript.see_exchange {cmd : List UInt8} {es : List Access} (h : Exchange cmd es)
    {t : Transcript} (ht : t.bytes = []) :
    ∃ before, Still before ∧
      ((pushed es = [] ∧ es = before ∧ es.foldl see t = t.answer before) ∨
      ∃ after, Quiet after ∧
        es = before ++ commandWrites cmd ++ .write .uciControl uciCtrlPushCmd :: after ∧
        es.foldl see t = ⟨[], (t.answer before).exchanges, some (cmd, after)⟩) := by
  cases h with
  | silent hstill =>
    exact ⟨es, hstill, Or.inl ⟨pushed_quiet hstill.quiet, rfl, see_quiet hstill.quiet t⟩⟩
  | @command before after hbefore hafter =>
    refine ⟨before, hbefore, Or.inr ⟨after, hafter, rfl, ?_⟩⟩
    rw [List.foldl_append, List.foldl_append, see_quiet hbefore.quiet, see_commandWrites,
      List.foldl_cons]
    have hbytes : (t.answer before).bytes = [] := ht
    rw [hbytes, List.nil_append]
    show after.foldl see (Transcript.push { t.answer before with bytes := cmd }) = _
    rw [see_quiet hafter]
    rfl

/-! ## Folding over the answers -/

section Fold

variable {β : Type} {f : β → Answered → β}

/-- Reads that belong to no answer make no difference. -/
theorem Transcript.foldl_answer (hf : ∀ b x es, Still es → f b (x.1, x.2 ++ es) = f b x)
    {es : List Access} (h : Still es) (t : Transcript) (b : β) :
    (t.answer es).exchanges.foldl f b = t.exchanges.foldl f b := by
  obtain ⟨bytes, earlier, last⟩ := t
  cases last with
  | none => rfl
  | some x =>
    simp only [answer, exchanges, Option.map_some, Option.toList_some, List.foldl_append,
      List.foldl_cons, List.foldl_nil]
    exact hf _ x es h

/-- What a fold makes of one exchange more. -/
theorem Transcript.foldl_exchange (hf : ∀ b x es, Still es → f b (x.1, x.2 ++ es) = f b x)
    {cmd : List UInt8} {es : List Access} (h : Exchange cmd es) {t : Transcript} (ht : t.bytes = [])
    (b : β) :
    (es.foldl see t).bytes = [] ∧
      ((pushed es = [] ∧ (es.foldl see t).exchanges.foldl f b = t.exchanges.foldl f b) ∨
      ∃ before after, Still before ∧ Quiet after ∧
        es = before ++ commandWrites cmd ++ .write .uciControl uciCtrlPushCmd :: after ∧
        (es.foldl see t).exchanges.foldl f b = f (t.exchanges.foldl f b) (cmd, after)) := by
  obtain ⟨before, hbefore, ⟨hnone, -, hsee⟩ | ⟨after, hafter, hes, hsee⟩⟩ := see_exchange h ht
  · rw [hsee]
    exact ⟨ht, Or.inl ⟨hnone, foldl_answer hf hbefore t b⟩⟩
  · refine ⟨by rw [hsee], Or.inr ⟨before, after, hbefore, hafter, hes, ?_⟩⟩
    rw [hsee, exchanges, List.foldl_append, foldl_answer hf hbefore]
    rfl

end Fold

/-! ## The connection of a moment -/

/-- A `UDP_CONNECT`. -/
def IsConnect (cmd : List UInt8) : Prop := cmd.take 2 = [uciTargetNetwork, uciCmdUdpConnect]

/-- A `SOCKET_CLOSE`. -/
def IsClose (cmd : List UInt8) : Prop := cmd.take 2 = [uciTargetNetwork, uciCmdSocketClose]

/-- A write, of either kind. -/
def IsWrite (cmd : List UInt8) : Prop :=
  cmd.take 2 = [uciTargetNetwork, uciCmdSocketWrite] ∨
    cmd.take 2 = [uciTargetNetwork, uciCmdSocketWriteChunk]

instance (cmd : List UInt8) : Decidable (IsConnect cmd) := by unfold IsConnect; infer_instance
instance (cmd : List UInt8) : Decidable (IsClose cmd) := by unfold IsClose; infer_instance
instance (cmd : List UInt8) : Decidable (IsWrite cmd) := by unfold IsWrite; infer_instance

/-- A write to a handle. -/
def WriteTo (id : UInt8) (cmd : List UInt8) : Prop :=
  cmd.take 3 = [uciTargetNetwork, uciCmdSocketWrite, id] ∨
    cmd.take 3 = [uciTargetNetwork, uciCmdSocketWriteChunk, id]

/-- A `UDP_CONNECT` with the first byte of its reply. -/
abbrev Connection : Type := List UInt8 × Option UInt8

/-- The last connection, and the writes so far, each with the connection it was made under. -/
structure Wire where
  connection : Option Connection
  writes : List (List UInt8 × Option Connection)

/-- One command more. -/
def Wire.take (w : Wire) (x : Answered) : Wire :=
  if IsConnect x.1 then { w with connection := some (x.1, (readsOf .uciRespData x.2).head?) }
  else if IsWrite x.1 then { w with writes := w.writes ++ [(x.1, w.connection)] }
  else w

/-- What a log tells of the connections. -/
def wire (log : List Access) : Wire := (transcript log).exchanges.foldl Wire.take ⟨none, []⟩

theorem Wire.take_still (w : Wire) (x : Answered) (es : List Access) (h : Still es) :
    w.take (x.1, x.2 ++ es) = w.take x := by
  unfold Wire.take
  rw [readsOf_append, h.data, List.append_nil]

/-- The log ends between two commands. -/
def Between (log : List Access) : Prop := (transcript log).bytes = []

/-- One exchange more. -/
theorem wire_exchange {log es : List Access} {cmd : List UInt8} (hlog : Between log)
    (h : Exchange cmd es) :
    Between (log ++ es) ∧
      ((pushed es = [] ∧ wire (log ++ es) = wire log) ∨
      ∃ before after, Still before ∧ Quiet after ∧
        es = before ++ commandWrites cmd ++ .write .uciControl uciCtrlPushCmd :: after ∧
        wire (log ++ es) = (wire log).take (cmd, after)) := by
  have hfold := Transcript.foldl_exchange Wire.take_still h hlog ⟨none, []⟩
  rw [← transcript_append] at hfold
  exact hfold

end C64WireGuard.Uci
