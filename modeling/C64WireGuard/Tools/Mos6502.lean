import C64WireGuard.Lib.Nmos6502
import Mathlib.Data.Nat.Bitwise

/-!
# `tools/uci/mos6502.py`: the 6502 interpreter

The interpreter on which the host runs the assembled code. A Python integer that is only ever masked
or shifted is a natural number here; where one can be negative, it is an integer. The `io_read` and
`io_write` hooks are devices that see the cycle counter.
-/

namespace C64WireGuard.Tools

open Nmos6502 (Op Mode)

/-- `_TABLE`: opcode, mnemonic, mode, base cycles. -/
def opcodeTable : List (Nat × Op × Mode × Nat) :=
  [(0x69, .adc, .imm, 2), (0x65, .adc, .zp, 3), (0x75, .adc, .zpx, 4),
    (0x6D, .adc, .abs, 4), (0x7D, .adc, .abx, 4), (0x79, .adc, .aby, 4),
    (0x61, .adc, .izx, 6), (0x71, .adc, .izy, 5),
    (0x29, .and, .imm, 2), (0x25, .and, .zp, 3), (0x35, .and, .zpx, 4),
    (0x2D, .and, .abs, 4), (0x3D, .and, .abx, 4), (0x39, .and, .aby, 4),
    (0x21, .and, .izx, 6), (0x31, .and, .izy, 5),
    (0x0A, .asl, .acc, 2), (0x06, .asl, .zp, 5), (0x16, .asl, .zpx, 6),
    (0x0E, .asl, .abs, 6), (0x1E, .asl, .abx, 7),
    (0x90, .bcc, .rel, 2), (0xB0, .bcs, .rel, 2), (0xF0, .beq, .rel, 2),
    (0x30, .bmi, .rel, 2), (0xD0, .bne, .rel, 2), (0x10, .bpl, .rel, 2),
    (0x50, .bvc, .rel, 2), (0x70, .bvs, .rel, 2),
    (0x24, .bit, .zp, 3), (0x2C, .bit, .abs, 4),
    (0x00, .brk, .imp, 7),
    (0x18, .clc, .imp, 2), (0xD8, .cld, .imp, 2), (0x58, .cli, .imp, 2),
    (0xB8, .clv, .imp, 2),
    (0xC9, .cmp, .imm, 2), (0xC5, .cmp, .zp, 3), (0xD5, .cmp, .zpx, 4),
    (0xCD, .cmp, .abs, 4), (0xDD, .cmp, .abx, 4), (0xD9, .cmp, .aby, 4),
    (0xC1, .cmp, .izx, 6), (0xD1, .cmp, .izy, 5),
    (0xE0, .cpx, .imm, 2), (0xE4, .cpx, .zp, 3), (0xEC, .cpx, .abs, 4),
    (0xC0, .cpy, .imm, 2), (0xC4, .cpy, .zp, 3), (0xCC, .cpy, .abs, 4),
    (0xC6, .dec, .zp, 5), (0xD6, .dec, .zpx, 6), (0xCE, .dec, .abs, 6),
    (0xDE, .dec, .abx, 7),
    (0xCA, .dex, .imp, 2), (0x88, .dey, .imp, 2),
    (0x49, .eor, .imm, 2), (0x45, .eor, .zp, 3), (0x55, .eor, .zpx, 4),
    (0x4D, .eor, .abs, 4), (0x5D, .eor, .abx, 4), (0x59, .eor, .aby, 4),
    (0x41, .eor, .izx, 6), (0x51, .eor, .izy, 5),
    (0xE6, .inc, .zp, 5), (0xF6, .inc, .zpx, 6), (0xEE, .inc, .abs, 6),
    (0xFE, .inc, .abx, 7),
    (0xE8, .inx, .imp, 2), (0xC8, .iny, .imp, 2),
    (0x4C, .jmp, .abs, 3), (0x6C, .jmp, .ind, 5),
    (0x20, .jsr, .abs, 6),
    (0xA9, .lda, .imm, 2), (0xA5, .lda, .zp, 3), (0xB5, .lda, .zpx, 4),
    (0xAD, .lda, .abs, 4), (0xBD, .lda, .abx, 4), (0xB9, .lda, .aby, 4),
    (0xA1, .lda, .izx, 6), (0xB1, .lda, .izy, 5),
    (0xA2, .ldx, .imm, 2), (0xA6, .ldx, .zp, 3), (0xB6, .ldx, .zpy, 4),
    (0xAE, .ldx, .abs, 4), (0xBE, .ldx, .aby, 4),
    (0xA0, .ldy, .imm, 2), (0xA4, .ldy, .zp, 3), (0xB4, .ldy, .zpx, 4),
    (0xAC, .ldy, .abs, 4), (0xBC, .ldy, .abx, 4),
    (0x4A, .lsr, .acc, 2), (0x46, .lsr, .zp, 5), (0x56, .lsr, .zpx, 6),
    (0x4E, .lsr, .abs, 6), (0x5E, .lsr, .abx, 7),
    (0xEA, .nop, .imp, 2),
    (0x09, .ora, .imm, 2), (0x05, .ora, .zp, 3), (0x15, .ora, .zpx, 4),
    (0x0D, .ora, .abs, 4), (0x1D, .ora, .abx, 4), (0x19, .ora, .aby, 4),
    (0x01, .ora, .izx, 6), (0x11, .ora, .izy, 5),
    (0x48, .pha, .imp, 3), (0x08, .php, .imp, 3),
    (0x68, .pla, .imp, 4), (0x28, .plp, .imp, 4),
    (0x2A, .rol, .acc, 2), (0x26, .rol, .zp, 5), (0x36, .rol, .zpx, 6),
    (0x2E, .rol, .abs, 6), (0x3E, .rol, .abx, 7),
    (0x6A, .ror, .acc, 2), (0x66, .ror, .zp, 5), (0x76, .ror, .zpx, 6),
    (0x6E, .ror, .abs, 6), (0x7E, .ror, .abx, 7),
    (0x40, .rti, .imp, 6), (0x60, .rts, .imp, 6),
    (0xE9, .sbc, .imm, 2), (0xE5, .sbc, .zp, 3), (0xF5, .sbc, .zpx, 4),
    (0xED, .sbc, .abs, 4), (0xFD, .sbc, .abx, 4), (0xF9, .sbc, .aby, 4),
    (0xE1, .sbc, .izx, 6), (0xF1, .sbc, .izy, 5),
    (0x38, .sec, .imp, 2), (0xF8, .sed, .imp, 2), (0x78, .sei, .imp, 2),
    (0x85, .sta, .zp, 3), (0x95, .sta, .zpx, 4), (0x8D, .sta, .abs, 4),
    (0x9D, .sta, .abx, 5), (0x99, .sta, .aby, 5), (0x81, .sta, .izx, 6),
    (0x91, .sta, .izy, 6),
    (0x86, .stx, .zp, 3), (0x96, .stx, .zpy, 4), (0x8E, .stx, .abs, 4),
    (0x84, .sty, .zp, 3), (0x94, .sty, .zpx, 4), (0x8C, .sty, .abs, 4),
    (0xAA, .tax, .imp, 2), (0xA8, .tay, .imp, 2), (0xBA, .tsx, .imp, 2),
    (0x8A, .txa, .imp, 2), (0x9A, .txs, .imp, 2), (0x98, .tya, .imp, 2)]

/-- The exceptions of a step. -/
inductive Fault
  | unknownOpcode (opcode pc : Nat)
  | decimalMode (op : Op)
  | sed (pc : Nat)
  | badMode (mode : Mode)
  | indexError
  | valueError
deriving DecidableEq

/-! ## The machine -/

/-- The fields of a `Mos6502`; `mem` is a bytearray of 64 KiB, `dev` what its hooks keep. -/
structure Mos6502 (σ : Type) where
  mem : BitVec 16 → Nat
  ioLo : Int
  ioHi : Int
  a : Nat
  x : Nat
  y : Nat
  sp : Nat
  pc : Nat
  c : Nat
  z : Nat
  v : Nat
  n : Nat
  i : Nat
  d : Nat
  cycles : Nat
  instructions : Nat
  dev : σ

/-- `io_read(addr)` and `io_write(addr, value)`. -/
structure Io (σ : Type) where
  read : (cycles addr : Nat) → σ → σ × Int
  write : (cycles addr value : Nat) → σ → σ

/-- What a method does: it changes the machine, or raises. -/
abbrev Method (σ : Type) := StateT (Mos6502 σ) (Except Fault)

variable {σ : Type}

namespace Mos6502

/-- `__init__`. -/
def init (mem : BitVec 16 → Nat) (dev : σ) (ioLo ioHi : Int) : Mos6502 σ where
  mem := mem
  ioLo := ioLo
  ioHi := ioHi
  a := 0
  x := 0
  y := 0
  sp := 0xfd
  pc := 0
  c := 0
  z := 0
  v := 0
  n := 0
  i := 1
  d := 0
  cycles := 0
  instructions := 0
  dev := dev

/-- `v & 0xFF` of an integer that may be negative. -/
def lowByte (v : Int) : Nat := (v % 0x100).toNat

/-- `v & 0xFFFF`. -/
def lowWord (v : Int) : Nat := (v % 0x10000).toNat

/-- `~x & y` of two integers that are not negative. -/
def notAnd (x y : Nat) : Nat := Nat.ldiff y x

/-- `mem[i]`. -/
def getMem (i : Nat) : Method σ Nat := do
  let self ← get
  if i < 0x10000 then return self.mem (BitVec.ofNat 16 i) else throw .indexError

/-- `mem[i] = v`, of a bytearray. -/
def setMem (i v : Nat) : Method σ Unit := do
  if i < 0x10000 then
    if v < 0x100 then
      modify fun self => { self with mem := Function.update self.mem (BitVec.ofNat 16 i) v }
    else throw .valueError
  else throw .indexError

/-- `io_lo <= addr < io_hi`. -/
def InIo (self : Mos6502 σ) (addr : Nat) : Prop := self.ioLo ≤ addr ∧ (addr : Int) < self.ioHi

instance (self : Mos6502 σ) (addr : Nat) : Decidable (self.InIo addr) :=
  inferInstanceAs (Decidable (_ ∧ _))

variable (io : Io σ)

/-! ### Bus and stack -/

def rd (addr : Nat) : Method σ Nat := do
  let self ← get
  if self.InIo addr then
    let r := io.read self.cycles addr self.dev
    set { self with dev := r.1 }
    return lowByte r.2
  else getMem addr

def wr (addr value : Nat) : Method σ Unit := do
  let self ← get
  if self.InIo addr then
    set { self with dev := io.write self.cycles addr (value &&& 0xff) self.dev }
  else setMem addr (value &&& 0xff)

def push (v : Nat) : Method σ Unit := do
  let self ← get
  setMem (0x100 + self.sp) (v &&& 0xff)
  modify fun self => { self with sp := lowByte (self.sp - 1) }

def pop : Method σ Nat := do
  modify fun self => { self with sp := (self.sp + 1) &&& 0xff }
  let self ← get
  getMem (0x100 + self.sp)

/-- `x and y` of two integers. -/
def pyAnd (x y : Nat) : Nat := if x = 0 then x else y

/-- The getter of `p`. -/
def p (self : Mos6502 σ) : Nat :=
  pyAnd self.n 0x80 ||| pyAnd self.v 0x40 ||| 0x20 ||| pyAnd self.d 0x08 ||| pyAnd self.i 0x04 |||
    pyAnd self.z 0x02 ||| pyAnd self.c 0x01

/-- The setter of `p`. -/
def setP (v : Nat) : Method σ Unit :=
  modify fun self => { self with
    n := if v &&& 0x80 ≠ 0 then 1 else 0
    v := if v &&& 0x40 ≠ 0 then 1 else 0
    d := if v &&& 0x08 ≠ 0 then 1 else 0
    i := if v &&& 0x04 ≠ 0 then 1 else 0
    z := if v &&& 0x02 ≠ 0 then 1 else 0
    c := v &&& 1 }

/-! ### Addressing -/

def setPc (v : Nat) : Method σ Unit := modify fun self => { self with pc := v }

/-- A cycle more when an index leads into another page. -/
def pageCross (penalise : Bool) (base eff : Nat) : Method σ Unit := do
  if penalise ∧ base &&& 0xff00 ≠ eff &&& 0xff00 then
    modify fun self => { self with cycles := self.cycles + 1 }

/-- The two bytes of an absolute operand. -/
def getWord (pc : Nat) : Method σ Nat := do
  let lo ← getMem pc
  let hi ← getMem (pc + 1)
  return lo ||| hi <<< 8

/-- The pointer in page zero. -/
def getPointer (zp : Nat) : Method σ Nat := do
  let lo ← getMem zp
  let hi ← getMem ((zp + 1) &&& 0xff)
  return lo ||| hi <<< 8

/-- `_addr`. -/
def addr (mode : Mode) (penalise : Bool) : Method σ Nat := do
  let self ← get
  let pc := self.pc
  match mode with
  | .imm =>
    setPc ((pc + 1) &&& 0xffff)
    return pc
  | .zp =>
    setPc ((pc + 1) &&& 0xffff)
    getMem pc
  | .zpx =>
    setPc ((pc + 1) &&& 0xffff)
    return ((← getMem pc) + self.x) &&& 0xff
  | .zpy =>
    setPc ((pc + 1) &&& 0xffff)
    return ((← getMem pc) + self.y) &&& 0xff
  | .abs =>
    setPc ((pc + 2) &&& 0xffff)
    getWord pc
  | .abx =>
    setPc ((pc + 2) &&& 0xffff)
    let base ← getWord pc
    let eff := (base + self.x) &&& 0xffff
    pageCross penalise base eff
    return eff
  | .aby =>
    setPc ((pc + 2) &&& 0xffff)
    let base ← getWord pc
    let eff := (base + self.y) &&& 0xffff
    pageCross penalise base eff
    return eff
  | .izx =>
    setPc ((pc + 1) &&& 0xffff)
    getPointer (((← getMem pc) + self.x) &&& 0xff)
  | .izy =>
    setPc ((pc + 1) &&& 0xffff)
    let base ← getPointer (← getMem pc)
    let eff := (base + self.y) &&& 0xffff
    pageCross penalise base eff
    return eff
  | .ind =>
    setPc ((pc + 2) &&& 0xffff)
    let ptr ← getWord pc
    -- the upper half comes from the same page
    let lo ← rd io ptr
    let hi ← rd io ((ptr &&& 0xff00) ||| ((ptr + 1) &&& 0xff))
    return lo ||| hi <<< 8
  | mode => throw (.badMode mode)

/-- `_operand`. -/
def operand (mode : Mode) : Method σ Nat := do rd io (← addr io mode true)

/-- `_setzn`. -/
def setzn (v : Nat) : Method σ Nat := do
  modify fun self => { self with
    z := if v = 0 then 1 else 0
    n := if v &&& 0x80 ≠ 0 then 1 else 0 }
  return v

/-! ### Operations -/

def setA (v : Nat) : Method σ Unit := modify fun self => { self with a := v }

def setX (v : Nat) : Method σ Unit := modify fun self => { self with x := v }

def setY (v : Nat) : Method σ Unit := modify fun self => { self with y := v }

def setC (v : Nat) : Method σ Unit := modify fun self => { self with c := v }

/-- What `_op_ADC` and `_op_SBC` share, from the operand on. -/
def addOperand (m : Nat) : Method σ Unit := do
  let self ← get
  let t := self.a + m + self.c
  setC (if t > 0xff then 1 else 0)
  let r := t &&& 0xff
  let overflow := notAnd (self.a ^^^ m) (self.a ^^^ r) &&& 0x80
  modify fun self => { self with v := if overflow ≠ 0 then 1 else 0 }
  setA (← setzn r)

def opADC (mode : Mode) : Method σ Unit := do
  let self ← get
  if self.d ≠ 0 then throw (.decimalMode .adc)
  addOperand (← operand io mode)

def opSBC (mode : Mode) : Method σ Unit := do
  let self ← get
  if self.d ≠ 0 then throw (.decimalMode .sbc)
  addOperand ((← operand io mode) ^^^ 0xff)

def opAND (mode : Mode) : Method σ Unit := do
  let self ← get
  setA (← setzn (self.a &&& (← operand io mode)))

def opORA (mode : Mode) : Method σ Unit := do
  let self ← get
  setA (← setzn (self.a ||| (← operand io mode)))

def opEOR (mode : Mode) : Method σ Unit := do
  let self ← get
  setA (← setzn (self.a ^^^ (← operand io mode)))

def opBIT (mode : Mode) : Method σ Unit := do
  let m ← operand io mode
  modify fun self => { self with
    z := if self.a &&& m = 0 then 1 else 0
    n := if m &&& 0x80 ≠ 0 then 1 else 0
    v := if m &&& 0x40 ≠ 0 then 1 else 0 }

/-- `_cmp`. -/
def cmp (reg : Nat) (mode : Mode) : Method σ Unit := do
  let m ← operand io mode
  let t := lowByte (reg - m)
  setC (if reg ≥ m then 1 else 0)
  let _ ← setzn t
  return

def opCMP (mode : Mode) : Method σ Unit := do cmp io (← get).a mode

def opCPX (mode : Mode) : Method σ Unit := do cmp io (← get).x mode

def opCPY (mode : Mode) : Method σ Unit := do cmp io (← get).y mode

def opASL (mode : Mode) : Method σ Unit := do
  let self ← get
  if mode = .acc then
    setC (if self.a &&& 0x80 ≠ 0 then 1 else 0)
    setA (← setzn ((self.a <<< 1) &&& 0xff))
  else
    let a ← addr io mode false
    let m ← rd io a
    setC (if m &&& 0x80 ≠ 0 then 1 else 0)
    wr io a (← setzn ((m <<< 1) &&& 0xff))

def opLSR (mode : Mode) : Method σ Unit := do
  let self ← get
  if mode = .acc then
    setC (self.a &&& 1)
    setA (← setzn (self.a >>> 1))
  else
    let a ← addr io mode false
    let m ← rd io a
    setC (m &&& 1)
    wr io a (← setzn (m >>> 1))

def opROL (mode : Mode) : Method σ Unit := do
  let self ← get
  if mode = .acc then
    let t := self.a <<< 1 ||| self.c
    setC (if t > 0xff then 1 else 0)
    setA (← setzn (t &&& 0xff))
  else
    let a ← addr io mode false
    let t := (← rd io a) <<< 1 ||| (← get).c
    setC (if t > 0xff then 1 else 0)
    wr io a (← setzn (t &&& 0xff))

def opROR (mode : Mode) : Method σ Unit := do
  let self ← get
  if mode = .acc then
    let t := self.a ||| self.c <<< 8
    setC (t &&& 1)
    setA (← setzn (t >>> 1))
  else
    let a ← addr io mode false
    let t := (← rd io a) ||| (← get).c <<< 8
    setC (t &&& 1)
    wr io a (← setzn (t >>> 1))

def opINC (mode : Mode) : Method σ Unit := do
  let a ← addr io mode false
  wr io a (← setzn (((← rd io a) + 1) &&& 0xff))

def opDEC (mode : Mode) : Method σ Unit := do
  let a ← addr io mode false
  wr io a (← setzn (lowByte ((← rd io a) - 1)))

def opINX : Method σ Unit := do setX (← setzn (((← get).x + 1) &&& 0xff))

def opINY : Method σ Unit := do setY (← setzn (((← get).y + 1) &&& 0xff))

def opDEX : Method σ Unit := do setX (← setzn (lowByte ((← get).x - 1)))

def opDEY : Method σ Unit := do setY (← setzn (lowByte ((← get).y - 1)))

def opLDA (mode : Mode) : Method σ Unit := do setA (← setzn (← operand io mode))

def opLDX (mode : Mode) : Method σ Unit := do setX (← setzn (← operand io mode))

def opLDY (mode : Mode) : Method σ Unit := do setY (← setzn (← operand io mode))

def opSTA (mode : Mode) : Method σ Unit := do wr io (← addr io mode false) (← get).a

def opSTX (mode : Mode) : Method σ Unit := do wr io (← addr io mode false) (← get).x

def opSTY (mode : Mode) : Method σ Unit := do wr io (← addr io mode false) (← get).y

def opTAX : Method σ Unit := do setX (← setzn (← get).a)

def opTAY : Method σ Unit := do setY (← setzn (← get).a)

def opTXA : Method σ Unit := do setA (← setzn (← get).x)

def opTYA : Method σ Unit := do setA (← setzn (← get).y)

def opTSX : Method σ Unit := do setX (← setzn (← get).sp)

def opTXS : Method σ Unit := modify fun self => { self with sp := self.x }

def opPHA : Method σ Unit := do push (← get).a

def opPLA : Method σ Unit := do setA (← setzn (← pop))

def opPHP : Method σ Unit := do push ((← get).p ||| 0x10)

def opPLP : Method σ Unit := do setP (← pop)

/-- `_branch`. -/
def branch (taken : Bool) : Method σ Unit := do
  let off ← getMem (← get).pc
  modify fun self => { self with pc := (self.pc + 1) &&& 0xffff }
  if taken then
    let off : Int := if off &&& 0x80 ≠ 0 then off - 0x100 else off
    modify fun self =>
      let dst := lowWord (self.pc + off)
      { self with
        cycles := self.cycles + if dst &&& 0xff00 ≠ self.pc &&& 0xff00 then 2 else 1
        pc := dst }

def opBCC : Method σ Unit := do branch (decide ((← get).c = 0))

def opBCS : Method σ Unit := do branch (decide ((← get).c ≠ 0))

def opBEQ : Method σ Unit := do branch (decide ((← get).z ≠ 0))

def opBNE : Method σ Unit := do branch (decide ((← get).z = 0))

def opBMI : Method σ Unit := do branch (decide ((← get).n ≠ 0))

def opBPL : Method σ Unit := do branch (decide ((← get).n = 0))

def opBVS : Method σ Unit := do branch (decide ((← get).v ≠ 0))

def opBVC : Method σ Unit := do branch (decide ((← get).v = 0))

def opJMP (mode : Mode) : Method σ Unit := do setPc (← addr io mode false)

def opJSR : Method σ Unit := do
  let target ← addr io .abs false
  let ret := lowWord ((← get).pc - 1)
  push ((ret >>> 8) &&& 0xff)
  push (ret &&& 0xff)
  setPc target

def opRTS : Method σ Unit := do
  let lo ← pop
  let hi ← pop
  setPc (((lo ||| hi <<< 8) + 1) &&& 0xffff)

def opRTI : Method σ Unit := do
  setP (← pop)
  let lo ← pop
  let hi ← pop
  setPc (lo ||| hi <<< 8)

def opBRK : Method σ Unit := do throw (.unknownOpcode 0 (lowWord ((← get).pc - 1)))

def opNOP : Method σ Unit := pure ()

def opCLC : Method σ Unit := setC 0

def opSEC : Method σ Unit := setC 1

def opCLI : Method σ Unit := modify fun self => { self with i := 0 }

def opSEI : Method σ Unit := modify fun self => { self with i := 1 }

def opCLV : Method σ Unit := modify fun self => { self with v := 0 }

def opCLD : Method σ Unit := modify fun self => { self with d := 0 }

def opSED : Method σ Unit := do throw (.sed (lowWord ((← get).pc - 1)))

/-- `_ops`. -/
def ops (mode : Mode) : Op → Method σ Unit
  | .adc => opADC io mode
  | .and => opAND io mode
  | .asl => opASL io mode
  | .bcc => opBCC
  | .bcs => opBCS
  | .beq => opBEQ
  | .bit => opBIT io mode
  | .bmi => opBMI
  | .bne => opBNE
  | .bpl => opBPL
  | .brk => opBRK
  | .bvc => opBVC
  | .bvs => opBVS
  | .clc => opCLC
  | .cld => opCLD
  | .cli => opCLI
  | .clv => opCLV
  | .cmp => opCMP io mode
  | .cpx => opCPX io mode
  | .cpy => opCPY io mode
  | .dec => opDEC io mode
  | .dex => opDEX
  | .dey => opDEY
  | .eor => opEOR io mode
  | .inc => opINC io mode
  | .inx => opINX
  | .iny => opINY
  | .jmp => opJMP io mode
  | .jsr => opJSR io
  | .lda => opLDA io mode
  | .ldx => opLDX io mode
  | .ldy => opLDY io mode
  | .lsr => opLSR io mode
  | .nop => opNOP
  | .ora => opORA io mode
  | .pha => opPHA
  | .php => opPHP
  | .pla => opPLA
  | .plp => opPLP
  | .rol => opROL io mode
  | .ror => opROR io mode
  | .rti => opRTI
  | .rts => opRTS
  | .sbc => opSBC io mode
  | .sec => opSEC
  | .sed => opSED
  | .sei => opSEI
  | .sta => opSTA io mode
  | .stx => opSTX io mode
  | .sty => opSTY io mode
  | .tax => opTAX
  | .tay => opTAY
  | .tsx => opTSX
  | .txa => opTXA
  | .txs => opTXS
  | .tya => opTYA

/-- `step`. -/
def step : Method σ Unit := do
  let self ← get
  let pc := self.pc
  let op ← if pc < self.ioLo ∨ pc ≥ self.ioHi then getMem pc else rd io pc
  match opcodeTable.lookup op with
  | none => throw (.unknownOpcode op pc)
  | some (name, mode, cyc) =>
    modify fun self => { self with
      pc := (pc + 1) &&& 0xffff
      cycles := self.cycles + cyc
      instructions := self.instructions + 1 }
    ops io mode name

end Mos6502

end C64WireGuard.Tools
