import C64WireGuard.Uci.Clock

/-!
# The Ultimate

The command interface as `uci_regs.inc` and the comments of `uci_cmd.s` and `net.s` describe it: four
states, a buffer that command bytes go to, a queue for the data of a reply and one for its status
line. The firmware works on its own (`Ultimate.Works`): it accepts a command, stages the reply block
by block, and takes notice of an accept some time after it has staged the block that follows.

Between two accesses of the program at most one thing happens to the interface, at any moment
(`Ultimate.Step`). A read of the status that falls on it gets every bit from before or from after
(`StatusBits.Torn`). `Implements` is what a `Device` has to satisfy to be one, and `ultimate` is such a
device for every schedule.
-/

namespace C64WireGuard.Uci

/-! ## The status register -/

/-- The `STATE` field. -/
inductive CmdState
  | idle
  | busy
  | dataLast
  | dataMore
deriving DecidableEq

/-- The bits of `UCI_STATUS`. -/
structure StatusBits where
  dataAv : Bool
  statAv : Bool
  state1 : Bool
  state0 : Bool
  error : Bool
  dataAcc : Bool
  cmdBusy : Bool

namespace StatusBits

/-- The register. -/
def byte (b : StatusBits) : UInt8 :=
  (if b.dataAv then uciStatDataAv else 0) ||| (if b.statAv then uciStatStatAv else 0) |||
    (if b.state1 then uciStateDataLast else 0) ||| (if b.state0 then uciStateBusy else 0) |||
    (if b.error then uciStatError else 0) ||| (if b.dataAcc then uciStatDataAcc else 0) |||
    (if b.cmdBusy then uciStatCmdBusy else 0)

/-- A read on the edge from `old` to `new`: the register is not latched, and each bit is resolved on
its own. -/
structure Torn (old new b : StatusBits) : Prop where
  dataAv : b.dataAv = old.dataAv ∨ b.dataAv = new.dataAv
  statAv : b.statAv = old.statAv ∨ b.statAv = new.statAv
  state1 : b.state1 = old.state1 ∨ b.state1 = new.state1
  state0 : b.state0 = old.state0 ∨ b.state0 = new.state0
  error : b.error = old.error ∨ b.error = new.error
  dataAcc : b.dataAcc = old.dataAcc ∨ b.dataAcc = new.dataAcc
  cmdBusy : b.cmdBusy = old.cmdBusy ∨ b.cmdBusy = new.cmdBusy

theorem byte_dataAv (b : StatusBits) : b.byte &&& uciStatDataAv ≠ 0 ↔ b.dataAv = true := by
  obtain ⟨_ | _, _ | _, _ | _, _ | _, _ | _, _ | _, _ | _⟩ := b <;> decide

theorem byte_statAv (b : StatusBits) : b.byte &&& uciStatStatAv ≠ 0 ↔ b.statAv = true := by
  obtain ⟨_ | _, _ | _, _ | _, _ | _, _ | _, _ | _, _ | _⟩ := b <;> decide

theorem byte_error (b : StatusBits) : b.byte &&& uciStatError = 0 ↔ b.error = false := by
  obtain ⟨_ | _, _ | _, _ | _, _ | _, _ | _, _ | _, _ | _⟩ := b <;> decide

theorem byte_cmdBusy (b : StatusBits) : b.byte &&& uciStatCmdBusy = 0 ↔ b.cmdBusy = false := by
  obtain ⟨_ | _, _ | _, _ | _, _ | _, _ | _, _ | _, _ | _⟩ := b <;> decide

theorem byte_idle (b : StatusBits) : b.byte &&& (uciStatState ||| uciStatCmdBusy) = 0 ↔
    b.state1 = false ∧ b.state0 = false ∧ b.cmdBusy = false := by
  obtain ⟨_ | _, _ | _, _ | _, _ | _, _ | _, _ | _, _ | _⟩ := b <;> decide

theorem byte_busy (b : StatusBits) : b.byte &&& uciStatState = uciStateBusy ↔
    b.state1 = false ∧ b.state0 = true := by
  obtain ⟨_ | _, _ | _, _ | _, _ | _, _ | _, _ | _, _ | _⟩ := b <;> decide

theorem byte_more (b : StatusBits) : b.byte &&& uciStatState = uciStateDataMore ↔
    b.state1 = true ∧ b.state0 = true := by
  obtain ⟨_ | _, _ | _, _ | _, _ | _, _ | _, _ | _, _ | _⟩ := b <;> decide

/-- The bits that `uci_settle_status` compares. -/
theorem byte_settled (b b' : StatusBits) :
    b.byte &&& (uciStatDataAv ||| uciStatState) = b'.byte &&& (uciStatDataAv ||| uciStatState) ↔
      b.dataAv = b'.dataAv ∧ b.state1 = b'.state1 ∧ b.state0 = b'.state0 := by
  have hpick : ∀ b : StatusBits, b.byte &&& (uciStatDataAv ||| uciStatState) =
      byte ⟨b.dataAv, false, b.state1, b.state0, false, false, false⟩ := by
    intro b
    obtain ⟨_ | _, _ | _, _ | _, _ | _, _ | _, _ | _, _ | _⟩ := b <;> decide
  rw [hpick, hpick]
  generalize b.dataAv = x, b.state1 = y, b.state0 = z
  generalize b'.dataAv = x', b'.state1 = y', b'.state0 = z'
  revert x y z x' y' z'
  decide

theorem Torn.same {old b : StatusBits} (h : Torn old old b) : b = old := by
  obtain ⟨h₁, h₂, h₃, h₄, h₅, h₆, h₇⟩ := h
  simp only [or_self] at *
  cases b
  cases old
  simp_all only

end StatusBits

/-! ## The interface -/

/-- A block of a reply: its data, and the status line that comes with it. -/
structure Block where
  data : List UInt8
  line : List UInt8
deriving DecidableEq

/-- The command interface, the firmware behind it, and the CIA's clock. `asked` says that the
firmware has still to stage a block, and the fields from `executed` on are ghosts: the commands that
ran with their replies, the command bytes that came at a bad time, the pushes that were refused, and
for how many tenths of a second the firmware has kept the program waiting for its last accept and its
last block. -/
structure Ultimate where
  state : CmdState
  cmdBusy : Bool
  dataAcc : Bool
  error : Bool
  command : List UInt8
  data : List UInt8
  line : List UInt8
  todo : List Block
  asked : Bool
  clock : Nat
  executed : List (List UInt8 × List Block)
  astray : List UInt8
  refused : Nat
  acceptTenths : Nat
  stageTenths : Nat

namespace Ultimate

/-- The interface takes commands. -/
def Idle (u : Ultimate) : Prop := u.state = .idle ∧ u.cmdBusy = false

instance (u : Ultimate) : Decidable u.Idle := instDecidableAnd

/-- `state(1)`: a block is presented. -/
def staged (u : Ultimate) : Bool := u.state = .dataLast ∨ u.state = .dataMore

/-- `UCI_STATUS`, when nothing moves. -/
def status (u : Ultimate) : StatusBits where
  dataAv := u.staged && !u.data.isEmpty
  statAv := u.staged && !u.line.isEmpty
  state1 := u.staged
  state0 := u.state = .busy ∨ u.state = .dataMore
  error := u.error
  dataAcc := u.dataAcc
  cmdBusy := u.cmdBusy

/-! ### What the program does to it -/

/-- A command byte. It is stored whatever the state is. -/
def putByte (b : UInt8) (u : Ultimate) : Ultimate :=
  { u with
    command := u.command ++ [b]
    astray := if u.Idle then u.astray else u.astray ++ [b] }

/-- `PUSH_CMD`. -/
def push (u : Ultimate) : Ultimate :=
  if u.Idle then { u with state := .busy, cmdBusy := true, acceptTenths := 0 }
  else { u with error := true, refused := u.refused + 1 }

/-- `NEXT_DATA`. The queues are emptied. A Data More block is answered by the next one, unless the
accept of the block before has not been taken notice of. -/
def nextData (u : Ultimate) : Ultimate :=
  match u.state with
  | .dataLast => { u with state := .idle, data := [], line := [] }
  | .dataMore =>
    if u.dataAcc then { u with state := .busy, data := [], line := [] }
    else
      { u with state := .busy, data := [], line := [], dataAcc := true, asked := true, stageTenths := 0 }
  | _ => u

/-- `ABORT`. -/
def abort (u : Ultimate) : Ultimate :=
  { u with
    state := .idle
    cmdBusy := false
    dataAcc := false
    command := []
    data := []
    line := []
    todo := []
    asked := false }

/-- A write to `UCI_CONTROL`. -/
def control (v : UInt8) (u : Ultimate) : Ultimate :=
  let u := if v &&& uciCtrlPushCmd ≠ 0 then u.push else u
  let u := if v &&& uciCtrlNextData ≠ 0 then u.nextData else u
  let u := if v &&& uciCtrlAbort ≠ 0 then u.abort else u
  if v &&& uciCtrlClrErr ≠ 0 then { u with error := false } else u

/-- A write. Writing the tenths sets the clock. -/
def write : WriteReg → UInt8 → Ultimate → Ultimate
  | .uciControl, v, u => u.control v
  | .uciCmdData, b, u => u.putByte b
  | .ciaTodTenths, v, u => { u with clock := v.toNat }
  | _, _, u => u

/-- A read when nothing moves. A queue moves on when it is read. -/
def read : ReadReg → Ultimate → UInt8 × Ultimate
  | .uciStatus, u => (u.status.byte, u)
  | .uciRespData, u => if u.staged then (u.data.headD 0, { u with data := u.data.tail }) else (0, u)
  | .uciStatusData, u => if u.staged then (u.line.headD 0, { u with line := u.line.tail }) else (0, u)
  | .uciId, u => (uciIdValue, u)
  | .ciaTodTenths, u => (UInt8.ofNat (u.clock % 10), u)
  | .ciaTodHour, u => (0, u)
  | .ciaCrb, u => (0, u)

/-! ### What the firmware does -/

/-- `HANDSHAKE_ACCEPT_COMMAND`: the bytes in the buffer are run as a command, and the buffer is
rewound. -/
def accept (blocks : List Block) (u : Ultimate) : Ultimate :=
  { u with
    cmdBusy := false
    command := []
    todo := blocks
    asked := true
    executed := u.executed ++ [(u.command, blocks)]
    stageTenths := 0 }

/-- `HANDSHAKE_VALIDATE_MORE` and `HANDSHAKE_VALIDATE_LAST`, once a block is in the queues. -/
def stage (b : Block) (rest : List Block) (u : Ultimate) : Ultimate :=
  { u with
    state := if rest.isEmpty then .dataLast else .dataMore
    data := b.data
    line := b.line
    todo := rest
    asked := false }

/-- One step of the firmware. `reply` says how a command may be answered. The accept of a Data More
block is noticed after the next block has been staged. -/
inductive Works (reply : List UInt8 → List Block → Prop) : Ultimate → Ultimate → Prop
  | accept {u : Ultimate} {blocks : List Block} (busy : u.cmdBusy = true) (some : blocks ≠ [])
      (answers : reply u.command blocks) : Works reply u (u.accept blocks)
  | stage {u : Ultimate} {b : Block} {rest : List Block} (state : u.state = .busy)
      (accepted : u.cmdBusy = false) (asked : u.asked = true) (todo : u.todo = b :: rest) :
      Works reply u (u.stage b rest)
  | noticed {u : Ultimate} (acc : u.dataAcc = true) (done : u.asked = false) :
      Works reply u { u with dataAcc := false }

/-- The clock moves on. -/
def after (n : Nat) (u : Ultimate) : Ultimate :=
  { u with
    clock := u.clock + n
    acceptTenths := if u.cmdBusy then u.acceptTenths + n else u.acceptTenths
    stageTenths := if u.asked then u.stageTenths + n else u.stageTenths }

/-! ### One access -/

/-- What a read may give when the interface changes from `old` to `u` under it. The hour and the
control register of the CIA may hold anything. -/
def Reads (r : ReadReg) (old u : Ultimate) (v : UInt8) : Prop :=
  match r with
  | .uciStatus => ∃ b, StatusBits.Torn old.status u.status b ∧ v = b.byte
  | .ciaTodHour => True
  | .ciaCrb => True
  | r => v = (u.read r).1

/-- **One access of the program**, and what has happened since the one before: time has passed, and
the firmware has taken one step or none. -/
def Step (reply : List UInt8 → List Block → Prop) (a : Access) (u u' : Ultimate) : Prop :=
  ∃ n u₁, (u₁ = u.after n ∨ Works reply (u.after n) u₁) ∧
    match a with
    | .read r v => Reads r (u.after n) u₁ v ∧ u' = (u₁.read r).2
    | .write r v => u' = u₁.write r v
    | .expired => False

end Ultimate

/-- **The device is an Ultimate**: `spec` tells which, and every access is one it may make. -/
structure Implements {δ : Type} (D : Device δ) (reply : List UInt8 → List Block → Prop)
    (spec : δ → Ultimate) : Prop where
  step : ∀ {a : Access} {d d' : δ}, D.Next a d d' → Ultimate.Step reply a (spec d) (spec d')

/-! ## Every schedule -/

/-- A step that the firmware can take. -/
inductive Work
  | accept
  | stage
  | noticed
deriving DecidableEq

/-- What happens at one access: tenths that pass, a step of the firmware if it can take it, and the
bits that a read of the status gets from after it. -/
structure Move where
  tenths : Nat
  work : Option Work
  late : StatusBits

/-- The firmware takes a step if it can. -/
def Ultimate.work (answer : List UInt8 → List Block) (w : Work) (u : Ultimate) : Ultimate :=
  match w, u.todo with
  | .accept, _ => if u.cmdBusy then u.accept (answer u.command) else u
  | .stage, b :: rest =>
    if u.state = .busy ∧ u.cmdBusy = false ∧ u.asked = true then u.stage b rest else u
  | .stage, [] => u
  | .noticed, _ => if u.dataAcc ∧ u.asked = false then { u with dataAcc := false } else u

/-- What a move makes of the interface before the access is made. -/
def Ultimate.moved (answer : List UInt8 → List Block) (m : Move) (u : Ultimate) : Ultimate :=
  match m.work with
  | none => u.after m.tenths
  | some w => (u.after m.tenths).work answer w

/-- The bits that `late` names from `new`, the others from `old`. -/
def StatusBits.mix (late old new : StatusBits) : StatusBits where
  dataAv := if late.dataAv then new.dataAv else old.dataAv
  statAv := if late.statAv then new.statAv else old.statAv
  state1 := if late.state1 then new.state1 else old.state1
  state0 := if late.state0 then new.state0 else old.state0
  error := if late.error then new.error else old.error
  dataAcc := if late.dataAcc then new.dataAcc else old.dataAcc
  cmdBusy := if late.cmdBusy then new.cmdBusy else old.cmdBusy

/-- The Ultimate that answers commands by `answer` and goes by `moves`. Its state counts the moves. -/
def ultimate (answer : List UInt8 → List Block) (moves : Nat → Move) : Device (Ultimate × Nat) where
  read r d :=
    let m := moves d.2
    let u := d.1.moved answer m
    let v :=
      match r with
      | .uciStatus => (m.late.mix (d.1.after m.tenths).status u.status).byte
      | r => (u.read r).1
    (v, ((u.read r).2, d.2 + 1))
  write r v d := ((d.1.moved answer (moves d.2)).write r v, d.2 + 1)

theorem Ultimate.works_work {answer : List UInt8 → List Block} (hanswer : ∀ cmd, answer cmd ≠ [])
    (w : Work) (u : Ultimate) :
    u.work answer w = u ∨ Works (fun cmd blocks => blocks = answer cmd) u (u.work answer w) := by
  unfold work
  split
  · split
    · rename_i hbusy
      exact Or.inr (.accept hbusy (hanswer _) rfl)
    · exact Or.inl rfl
  · rename_i b rest htodo
    split
    · rename_i hready
      exact Or.inr (.stage hready.1 hready.2.1 hready.2.2 htodo)
    · exact Or.inl rfl
  · exact Or.inl rfl
  · split
    · rename_i hacc
      exact Or.inr (.noticed hacc.1 hacc.2)
    · exact Or.inl rfl

theorem Ultimate.works_moved {answer : List UInt8 → List Block} (hanswer : ∀ cmd, answer cmd ≠ [])
    (m : Move) (u : Ultimate) :
    u.moved answer m = u.after m.tenths ∨
      Works (fun cmd blocks => blocks = answer cmd) (u.after m.tenths) (u.moved answer m) := by
  unfold moved
  cases m.work with
  | none => exact Or.inl rfl
  | some w => exact works_work hanswer w _

theorem StatusBits.torn_mix (late old new : StatusBits) : Torn old new (late.mix old new) := by
  constructor <;> exact ite_eq_or_eq _ _ _ |>.symm

/-- **Every schedule is one of an Ultimate.** -/
theorem ultimate_implements {answer : List UInt8 → List Block} (hanswer : ∀ cmd, answer cmd ≠ [])
    (moves : Nat → Move) :
    Implements (ultimate answer moves) (fun cmd blocks => blocks = answer cmd) Prod.fst where
  step := by
    intro a d d' h
    refine ⟨(moves d.2).tenths, d.1.moved answer (moves d.2), ?_, ?_⟩
    · exact Ultimate.works_moved hanswer _ _
    · cases h with
      | read r d =>
        refine ⟨?_, rfl⟩
        cases r with
        | uciStatus => exact ⟨_, StatusBits.torn_mix _ _ _, rfl⟩
        | ciaTodHour => trivial
        | ciaCrb => trivial
        | uciId => rfl
        | uciRespData => rfl
        | uciStatusData => rfl
        | ciaTodTenths => rfl
      | write r v d => rfl

end C64WireGuard.Uci
