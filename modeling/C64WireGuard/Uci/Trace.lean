import C64WireGuard.Uci.Net

/-!
# Reading a log

What a run did to the device is told from its log: the values it read from each register, and the
commands it pushed. A quiet stretch writes no command byte and pushes nothing.
-/

namespace C64WireGuard.Uci

variable {δ : Type} {D : Device δ}

/-! ## Values read -/

/-- The values read from a register, in order. -/
def readsOf (r : ReadReg) : List Access → List UInt8 :=
  List.filterMap fun
    | .read r' v => if r' = r then some v else none
    | _ => none

@[simp] theorem readsOf_nil (r : ReadReg) : readsOf r [] = [] := rfl

@[simp] theorem readsOf_append (r : ReadReg) (es fs : List Access) :
    readsOf r (es ++ fs) = readsOf r es ++ readsOf r fs := List.filterMap_append

@[simp] theorem readsOf_read (r r' : ReadReg) (v : UInt8) (es : List Access) :
    readsOf r (.read r' v :: es) = if r' = r then v :: readsOf r es else readsOf r es := by
  by_cases h : r' = r <;> simp [readsOf, h]

@[simp] theorem readsOf_write (r : ReadReg) (w : WriteReg) (v : UInt8) (es : List Access) :
    readsOf r (.write w v :: es) = readsOf r es := rfl

@[simp] theorem readsOf_expired (r : ReadReg) (es : List Access) :
    readsOf r (.expired :: es) = readsOf r es := rfl

/-- The writes of command bytes. -/
def commandWrites (bs : List UInt8) : List Access := bs.map (.write .uciCmdData)

@[simp] theorem readsOf_commandWrites (r : ReadReg) (bs : List UInt8) :
    readsOf r (commandWrites bs) = [] := by
  induction bs with
  | nil => rfl
  | cons b bs ih => exact ih

@[simp] theorem not_mem_commandWrites (bs : List UInt8) : .expired ∉ commandWrites bs := by
  simp [commandWrites]

/-! ## Commands -/

/-- The commands pushed, each with the bytes written since the one before; `buf` is written
already. -/
def pushedFrom : List UInt8 → List Access → List (List UInt8)
  | _, [] => []
  | buf, .write .uciCmdData b :: es => pushedFrom (buf ++ [b]) es
  | buf, .write .uciControl v :: es =>
    if v = uciCtrlPushCmd then buf :: pushedFrom [] es else pushedFrom buf es
  | buf, _ :: es => pushedFrom buf es

/-- The commands pushed. -/
def pushed (es : List Access) : List (List UInt8) := pushedFrom [] es

/-- Neither a command byte nor a push. -/
def Access.Quiet : Access → Prop
  | .write .uciCmdData _ => False
  | .write .uciControl v => v ≠ uciCtrlPushCmd
  | _ => True

/-- A stretch of the log without a command byte and without a push. -/
def Quiet (es : List Access) : Prop := ∀ e ∈ es, e.Quiet

@[simp] theorem quiet_nil : Quiet [] := by simp [Quiet]

@[simp] theorem quiet_cons {e : Access} {es : List Access} :
    Quiet (e :: es) ↔ e.Quiet ∧ Quiet es := by simp [Quiet]

@[simp] theorem quiet_append {es fs : List Access} : Quiet (es ++ fs) ↔ Quiet es ∧ Quiet fs := by
  simp only [Quiet, List.mem_append, or_imp, forall_and]

@[simp] theorem quiet_read (r : ReadReg) (v : UInt8) : (Access.read r v).Quiet := trivial

@[simp] theorem quiet_expired : Access.expired.Quiet := trivial

/-- A quiet stretch pushes nothing and loses no byte. -/
theorem pushedFrom_quiet {es : List Access} (h : Quiet es) (buf : List UInt8) (fs : List Access) :
    pushedFrom buf (es ++ fs) = pushedFrom buf fs := by
  induction es with
  | nil => rfl
  | cons e es ih =>
    rw [quiet_cons] at h
    rw [List.cons_append, ← ih h.2]
    match e, h.1 with
    | .read _ _, _ => rfl
    | .expired, _ => rfl
    | .write .uciControl v, hv => exact if_neg hv
    | .write .ciaTodHour _, _ => rfl
    | .write .ciaTodMin _, _ => rfl
    | .write .ciaTodSec _, _ => rfl
    | .write .ciaTodTenths _, _ => rfl
    | .write .ciaCrb _, _ => rfl

theorem pushedFrom_commandWrites (buf bs : List UInt8) (fs : List Access) :
    pushedFrom buf (commandWrites bs ++ fs) = pushedFrom (buf ++ bs) fs := by
  induction bs generalizing buf with
  | nil => rw [List.append_nil]; rfl
  | cons b bs ih =>
    have h : pushedFrom buf (commandWrites (b :: bs) ++ fs) =
        pushedFrom (buf ++ [b]) (commandWrites bs ++ fs) := rfl
    rw [h, ih, List.append_assoc, List.singleton_append]

/-- A command, pushed between two quiet stretches. -/
theorem pushed_command {es fs : List Access} (hes : Quiet es) (hfs : Quiet fs) (bs : List UInt8) :
    pushed (es ++ commandWrites bs ++ .write .uciControl uciCtrlPushCmd :: fs) = [bs] := by
  have hpush : pushedFrom ([] ++ bs) (.write .uciControl uciCtrlPushCmd :: fs) =
      bs :: pushedFrom [] fs := if_pos rfl
  have hrest := pushedFrom_quiet hfs [] []
  rw [List.append_nil] at hrest
  rw [pushed, List.append_assoc, pushedFrom_quiet hes, pushedFrom_commandWrites, hpush, hrest]
  rfl

theorem pushed_quiet {es : List Access} (h : Quiet es) : pushed es = [] := by
  have h := pushedFrom_quiet h [] []
  rwa [List.append_nil] at h

/-- A quiet stretch that reads nothing of a reply. -/
structure Still (es : List Access) : Prop where
  quiet : Quiet es
  data : readsOf .uciRespData es = []
  status : readsOf .uciStatusData es = []

theorem still_nil : Still [] := ⟨quiet_nil, rfl, rfl⟩

theorem Still.append {es fs : List Access} (h : Still es) (h' : Still fs) : Still (es ++ fs) :=
  ⟨quiet_append.mpr ⟨h.quiet, h'.quiet⟩, by rw [readsOf_append, h.data, h'.data]; rfl,
    by rw [readsOf_append, h.status, h'.status]; rfl⟩

/-- The stretch of an exchange: nothing is pushed, or one command. A reply is read after its own
command only. -/
inductive Exchange (cmd : List UInt8) : List Access → Prop
  | silent {es : List Access} (still : Still es) : Exchange cmd es
  | command {es fs : List Access} (before : Still es) (after : Quiet fs) :
      Exchange cmd (es ++ commandWrites cmd ++ .write .uciControl uciCtrlPushCmd :: fs)

theorem Exchange.pushed_cases {cmd : List UInt8} {es : List Access} (h : Exchange cmd es) :
    pushed es = [] ∨ pushed es = [cmd] := by
  cases h with
  | silent hstill => exact Or.inl (pushed_quiet hstill.quiet)
  | command hbefore hafter => exact Or.inr (pushed_command hbefore.quiet hafter cmd)

/-- No byte of an exchange is left over for the commands after it. -/
theorem Exchange.pushed_append {cmd : List UInt8} {es : List Access} (h : Exchange cmd es)
    (fs : List Access) : pushed (es ++ fs) = pushed es ++ pushed fs := by
  cases h with
  | silent hstill => rw [pushed, pushedFrom_quiet hstill.quiet, pushed_quiet hstill.quiet]; rfl
  | @command before after hbefore hafter =>
    have hpush : pushedFrom ([] ++ cmd) (.write .uciControl uciCtrlPushCmd :: (after ++ fs)) =
        cmd :: pushedFrom [] (after ++ fs) := if_pos rfl
    rw [pushed_command hbefore.quiet hafter, pushed, List.append_assoc, List.append_assoc,
      pushedFrom_quiet hbefore.quiet, pushedFrom_commandWrites, List.cons_append, hpush,
      pushedFrom_quiet hafter]
    rfl

theorem pushed_flatten {segs : List (List Access)} (h : ∀ es ∈ segs, ∃ cmd, Exchange cmd es) :
    pushed segs.flatten = (segs.map pushed).flatten := by
  induction segs with
  | nil => rfl
  | cons es segs ih =>
    obtain ⟨cmd, hes⟩ := h es List.mem_cons_self
    rw [List.flatten_cons, hes.pushed_append, ih fun fs hfs => h fs (List.mem_cons_of_mem _ hfs)]
    rfl

/-! ## Scripts -/

/-- A device that answers every read with the next value of a script. -/
def scriptDevice : Device (List UInt8) where
  read _ script := (script.headD 0, script.tail)
  write _ _ script := script

end C64WireGuard.Uci
