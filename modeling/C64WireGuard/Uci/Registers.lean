import C64WireGuard.Lib.Prog
import C64WireGuard.Machine

/-!
# The command interface, seen from the bus

The adapter reaches the Ultimate through five registers of `uci_regs.inc`, and the time through the
CIA's clock. Every read and write goes to a device of an arbitrary type `δ`, so that a statement
about every `Device` is a statement about everything the other side of the bus may do, torn reads,
refusals and silence included. The fences of `uci_fence` pass time and nothing else.

`State.log` is a ghost: the accesses so far, and a mark where a bounded wait spent its budget. No
routine reads it.
-/

namespace C64WireGuard.Uci

/-! ## Registers -/

/-- The registers that are read. `UCI_STATUS` shares its address with `UCI_CONTROL`, and `UCI_ID`
with `UCI_CMD_DATA`. -/
inductive ReadReg
  | uciStatus
  | uciId
  | uciRespData
  | uciStatusData
  | ciaTodHour
  | ciaTodTenths
  | ciaCrb
deriving DecidableEq

/-- The registers that are written. -/
inductive WriteReg
  | uciControl
  | uciCmdData
  | ciaTodHour
  | ciaTodMin
  | ciaTodSec
  | ciaTodTenths
  | ciaCrb
deriving DecidableEq

/-- The other side of the bus. -/
structure Device (δ : Type) where
  read : ReadReg → δ → UInt8 × δ
  write : WriteReg → UInt8 → δ → δ

/-- What the log records. -/
inductive Access
  | read (r : ReadReg) (v : UInt8)
  | write (r : WriteReg) (v : UInt8)
  | expired
deriving DecidableEq

/-- `UCI_ID_VALUE`. -/
def uciIdValue : UInt8 := 0xc9

/-- `UCI_STAT_DATA_AV`. -/
def uciStatDataAv : UInt8 := 0x80

/-- `UCI_STAT_STAT_AV`. -/
def uciStatStatAv : UInt8 := 0x40

/-- `UCI_STAT_STATE`. -/
def uciStatState : UInt8 := 0x30

/-- `UCI_STAT_ERROR`. -/
def uciStatError : UInt8 := 0x08

/-- `UCI_STAT_DATA_ACC`. -/
def uciStatDataAcc : UInt8 := 0x02

/-- `UCI_STAT_CMD_BUSY`. -/
def uciStatCmdBusy : UInt8 := 0x01

/-- `UCI_STATE_BUSY`. -/
def uciStateBusy : UInt8 := 0x10

/-- `UCI_STATE_DATA_LAST`. -/
def uciStateDataLast : UInt8 := 0x20

/-- `UCI_STATE_DATA_MORE`. -/
def uciStateDataMore : UInt8 := 0x30

/-- `UCI_CTRL_PUSH_CMD`. -/
def uciCtrlPushCmd : UInt8 := 0x01

/-- `UCI_CTRL_NEXT_DATA`. -/
def uciCtrlNextData : UInt8 := 0x02

/-- `UCI_CTRL_ABORT`. -/
def uciCtrlAbort : UInt8 := 0x04

/-- `UCI_CTRL_CLR_ERR`. -/
def uciCtrlClrErr : UInt8 := 0x08

/-! ## The adapter's cells -/

/-- `UCI_STATUS_MAX`. -/
def uciStatusMax : Nat := 48

/-- The cells of `net.s` and `uci_cmd.s`, those of `data.s` they share with the program, and the
memory their pointers reach. A 16-bit cell is a number. -/
structure UciMem where
  ram : Nat → UInt8
  netUdpSendPtr : Nat
  netUdpSendLen : Nat
  netLocalIp : Bytes 4
  netLastError : UInt8
  uciIpaddrResp : Bytes 12
  uciSocketId : UInt8
  uciSocketOpen : UInt8
  uciSendRem : Nat
  uciChunkLen : Nat
  uciChunkOff : Nat
  uciWriteResp : Bytes 2
  uciReadHdr : Bytes 2
  uciPollRem : Nat
  uciShortReadState : UInt8
  uciRespCount : Nat
  uciStatusBuf : Bytes uciStatusMax
  uciStatusLen : Nat
  uciStatusSeen : Nat
  dstIdx : Nat
  udpRecvLen : Nat
  udpRecvReady : UInt8
  udpRecvSrc : Endpoint
  netUdpDest : Endpoint

/-- The cells of a fresh image. -/
def UciMem.start : UciMem where
  ram := fun _ => 0
  netUdpSendPtr := 0
  netUdpSendLen := 0
  netLocalIp := .zero 4
  netLastError := 0
  uciIpaddrResp := .zero 12
  uciSocketId := 0
  uciSocketOpen := 0
  uciSendRem := 0
  uciChunkLen := 0
  uciChunkOff := 0
  uciWriteResp := .zero 2
  uciReadHdr := .zero 2
  uciPollRem := 0
  uciShortReadState := 0
  uciRespCount := 0
  uciStatusBuf := .zero _
  uciStatusLen := 0
  uciStatusSeen := 0
  dstIdx := 0
  udpRecvLen := 0
  udpRecvReady := 0
  udpRecvSrc := .start
  netUdpDest := .start

/-- The machine that the adapter's routines run on. -/
structure State (δ : Type) where
  mem : UciMem
  dev : δ
  log : List Access

variable {δ : Type}

/-- Read a register. -/
def lda (D : Device δ) (r : ReadReg) : Prog (State δ) UInt8 :=
  .act fun s =>
    let v := D.read r s.dev
    (v.1, { s with dev := v.2, log := s.log ++ [.read r v.1] })

/-- Write a register. -/
def sta (D : Device δ) (r : WriteReg) (v : UInt8) : Prog (State δ) Unit :=
  .act fun s => ((), { s with dev := D.write r v s.dev, log := s.log ++ [.write r v] })

/-- The cells. -/
def cells : Prog (State δ) UciMem := .act fun s => (s.mem, s)

/-- Write cells. -/
def store (f : UciMem → UciMem) : Prog (State δ) Unit := .act fun s => ((), { s with mem := f s.mem })

/-- A bounded wait gives up. -/
def giveUp : Prog (State δ) Unit := .act fun s => ((), { s with log := s.log ++ [.expired] })

/-! ## Operands -/

/-- The operand of an `abs,Y` instruction that the program itself rewrites, and Y. -/
structure Operand where
  abs : Nat
  y : Nat

/-- The address the instruction reaches. -/
def Operand.addr (o : Operand) : Nat := (o.abs + o.y) % 65536

/-- `iny`, and `inc` of the operand's high byte when Y wraps. -/
def Operand.next (o : Operand) : Operand :=
  if (o.y + 1) % 256 = 0 then ⟨(o.abs + 256) % 65536, 0⟩ else ⟨o.abs, o.y + 1⟩

/-- Crossing a page or not, the operand moves on by one byte. -/
theorem Operand.addr_next {o : Operand} (h : o.y < 256) :
    o.next.addr = (o.addr + 1) % 65536 ∧ o.next.y < 256 := by
  unfold Operand.next Operand.addr
  split
  · constructor
    · dsimp only
      omega
    · dsimp only
      omega
  · constructor
    · dsimp only
      omega
    · dsimp only
      omega

end C64WireGuard.Uci
