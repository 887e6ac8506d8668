import C64WireGuard.Uci.Registers

/-!
# `uci_cmd.s`

The helpers every exchange is made of. The carry is the answer `true`. Every wait is bounded by the
CIA's clock: it gives up when the digit of tenths of a second has been seen to change as often as
its budget says.
-/

namespace C64WireGuard.Uci

open Bytes

variable {δ : Type} (D : Device δ)

/-! ## The clock -/

/-- `NET_ERR_TIMEBASE_STOPPED`. -/
def netErrTimebaseStopped : UInt8 := 0x01

/-- `UCI_ERR_WAIT_TIMEOUT`. -/
def uciErrWaitTimeout : UInt8 := 0x89

/-- Read the digit of tenths, as every wait reads it: the hour first, which latches the clock. -/
def readTenths : Prog (State δ) UInt8 := do
  let _ ← lda D .ciaTodHour
  lda D .ciaTodTenths

/-- `@ts_loop`, with the number of polls left. -/
def tsLoop (first : UInt8) : Nat → Prog (State δ) Bool
  | 0 => do
    store fun m => { m with netLastError := netErrTimebaseStopped }
    pure true
  | polls + 1 => do
    let t ← readTenths D
    if t ≠ first then pure false else tsLoop first polls

/-- `uci_tod_start`. -/
def uciTodStart : Prog (State δ) Bool := do
  let crb ← lda D .ciaCrb
  sta D .ciaCrb (crb &&& 0x7f)
  sta D .ciaTodHour 0
  sta D .ciaTodMin 0
  sta D .ciaTodSec 0
  sta D .ciaTodTenths 0
  let first ← readTenths D
  tsLoop D first 4096

/-! ## Bounded waits -/

/-- One round of a bounded wait: `poll`, and when it does not end the wait, a look at the clock.
`last` is the digit seen last and `elapsed` the changes seen so far. -/
def waitRound {α : Type} (budget : Nat) (poll : Prog (State δ) (Option α)) :
    UInt8 × Nat → Prog (State δ) (UInt8 × Nat ⊕ Option α)
  | (last, elapsed) => do
    match ← poll with
    | some a => pure (.inr (some a))
    | none =>
      let t ← readTenths D
      if t = last then pure (.inl (last, elapsed))
      else if elapsed + 1 < budget then pure (.inl (t, elapsed + 1))
      else do
        giveUp
        pure (.inr none)

/-- Poll until `poll` answers, or give up when the digit of tenths has changed `budget` times. -/
def boundedWait {α : Type} (budget : Nat) (poll : Prog (State δ) (Option α)) :
    Prog (State δ) (Option α) := do
  let t ← readTenths D
  .loop (waitRound D budget poll) (t, 0)

/-- `UCI_WAIT_IDLE_BUDGET_TENTHS`. -/
def uciWaitIdleBudgetTenths : Nat := 50

/-- `UCI_RESP_WAIT_BUDGET_TENTHS`. -/
def uciRespWaitBudgetTenths : Nat := 10

/-- What most waits do when their time is up. -/
def waitTimeout : Prog (State δ) Bool := do
  store fun m => { m with netLastError := uciErrWaitTimeout }
  pure true

/-! ## Control -/

/-- `uci_abort`. -/
def uciAbort : Prog (State δ) Unit := sta D .uciControl uciCtrlAbort

/-- `uci_ack`. -/
def uciAck : Prog (State δ) Unit := sta D .uciControl uciCtrlNextData

/-- `uci_begin_cmd`. -/
def uciBeginCmd (target : UInt8) : Prog (State δ) Unit := sta D .uciCmdData target

/-- `uci_put_byte`. -/
def uciPutByte (b : UInt8) : Prog (State δ) Unit := sta D .uciCmdData b

/-- `@wi_loop` up to `@wi_tick`: the status of an idle device, once a second read confirms it. A
device that holds out a reply is told to drop it. -/
def idlePoll : Prog (State δ) (Option UInt8) := do
  let status ← lda D .uciStatus
  if status &&& (uciStatState ||| uciStatCmdBusy) = 0 then do
    let again ← lda D .uciStatus
    if again &&& (uciStatState ||| uciStatCmdBusy) = 0 then pure (some status) else pure none
  else if status &&& (uciStateDataLast ||| uciStatDataAcc ||| uciStatCmdBusy) = uciStateDataLast then do
    uciAck D
    pure none
  else pure none

/-- `@idle_done`: an error that an earlier command left is cleared. -/
def idleDone (status : UInt8) : Prog (State δ) Bool :=
  if status &&& uciStatError = 0 then pure false
  else do
    sta D .uciControl uciCtrlClrErr
    pure false

/-- `uci_wait_idle`. -/
def uciWaitIdle : Prog (State δ) Bool := do
  match ← boundedWait D uciWaitIdleBudgetTenths (idlePoll D) with
  | some status => idleDone D status
  | none => waitTimeout

/-- One read of the status that ends a wait when `done` holds of it. -/
def statusPoll (done : UInt8 → Bool) : Prog (State δ) (Option Unit) := do
  let status ← lda D .uciStatus
  if done status then pure (some ()) else pure none

/-- A wait for a status, its carry set when the time is up. -/
def statusWait (budget : Nat) (done : UInt8 → Bool) : Prog (State δ) Bool := do
  match ← boundedWait D budget (statusPoll D done) with
  | some () => pure false
  | none => waitTimeout

/-- `uci_wait_not_busy`. -/
def uciWaitNotBusy : Prog (State δ) Bool :=
  statusWait D uciWaitIdleBudgetTenths fun status => status &&& uciStatCmdBusy = 0

/-- `uci_wait_reply_staged`. -/
def uciWaitReplyStaged : Prog (State δ) Bool :=
  statusWait D uciRespWaitBudgetTenths fun status => status &&& uciStatState ≠ uciStateBusy

/-- `uci_push_wait`. -/
def uciPushWait : Prog (State δ) Bool := do
  sta D .uciControl uciCtrlPushCmd
  uciWaitNotBusy D

/-- `uci_check_err`. -/
def uciCheckErr : Prog (State δ) Bool := do
  let status ← lda D .uciStatus
  if status &&& uciStatError = 0 then pure false
  else do
    sta D .uciControl uciCtrlClrErr
    pure true

/-! ## Replies -/

/-- `@rd_wait`. -/
def rdWait : Prog (State δ) (Option Unit) :=
  boundedWait D uciRespWaitBudgetTenths (statusPoll D fun status => status &&& uciStatDataAv ≠ 0)

/-- `@rd_loop`, with `y` bytes read. -/
def rdLoop (max : Nat) (dst : Nat → UInt8 → UciMem → UciMem) : Nat → Prog (State δ) (Nat ⊕ Nat)
  | y => do
    if max ≤ y then pure (.inr y)
    else do
      match ← rdWait D with
      | none => pure (.inr y)
      | some () =>
        let b ← lda D .uciRespData
        store (dst y b)
        pure (.inl (y + 1))

/-- `uci_read_resp_bytes`. `uci_resp_dst` is what a byte stored there does to the cells. -/
def uciReadRespBytes (max : Nat) (dst : Nat → UInt8 → UciMem → UciMem) : Prog (State δ) Unit := do
  let y ← Prog.loop (rdLoop D max dst) 0
  store fun m => { m with uciRespCount := y }

/-- One round of a drain: `take` a byte while `available` says there is one. -/
def drainPoll (available : UInt8) (r : ReadReg) (take : UInt8 → UciMem → UciMem) :
    Prog (State δ) (Option Unit) := do
  let status ← lda D .uciStatus
  if status &&& available = 0 then pure (some ())
  else do
    let b ← lda D r
    store (take b)
    pure none

/-- `uci_drain_resp`. -/
def uciDrainResp : Prog (State δ) Bool := do
  match ← boundedWait D uciWaitIdleBudgetTenths (drainPoll D uciStatDataAv .uciRespData fun _ m => m)
    with
  | some () => pure false
  | none => waitTimeout

/-- A byte of the status line, kept while there is room. -/
def takeStatus (b : UInt8) (m : UciMem) : UciMem :=
  if uciStatusMax ≤ m.dstIdx then m
  else { m with uciStatusBuf := put m.uciStatusBuf m.dstIdx b, dstIdx := m.dstIdx + 1 }

/-- `@dst_commit`. The length of the first line that came stays. -/
def dstCommit (m : UciMem) : UciMem :=
  { m with
    uciStatusSeen := m.dstIdx
    uciStatusLen :=
      if m.dstIdx = 0 then m.uciStatusLen
      else if m.uciStatusLen ≠ 0 then m.uciStatusLen
      else m.dstIdx }

/-- `uci_drain_status`. -/
def uciDrainStatus : Prog (State δ) Bool := do
  store fun m => { m with dstIdx := 0 }
  match ← boundedWait D uciWaitIdleBudgetTenths (drainPoll D uciStatStatAv .uciStatusData takeStatus)
    with
  | some () => do
    store dstCommit
    pure false
  | none => do
    let c ← waitTimeout
    store dstCommit
    pure c

/-- `uci_status_leading_code`: the value of two digits, modulo 256. -/
def uciStatusLeadingCode (m : UciMem) : UInt8 :=
  let d := byte m.uciStatusBuf 0 - 0x30
  (d * 4 + d) * 2 + (byte m.uciStatusBuf 1 - 0x30)

end C64WireGuard.Uci
