import Mathlib.Logic.Function.Basic

/-!
# The NMOS 6502

The documented instructions, each as one step. The bytes of an instruction, the pointers in page zero
and the stack are in memory; its operand goes over the bus, where a window of it belongs to devices.
Outside of that window the bus is the memory (`read_of_memory`, `write_of_memory`). `adc` and `sbc` are
those of binary mode.
-/

namespace Nmos6502

/-! ## Instructions -/

/-- Where an instruction finds its operand. -/
inductive Mode
  | imp | acc | imm | zp | zpx | zpy | abs | abx | aby | ind | izx | izy | rel
deriving DecidableEq

/-- Its bytes, with the opcode. -/
def Mode.length : Mode → Nat
  | .imp | .acc => 1
  | .abs | .abx | .aby | .ind => 3
  | _ => 2

/-- The operand is in memory. -/
def Mode.inMemory : Mode → Bool
  | .zp | .zpx | .zpy | .abs | .abx | .aby | .izx | .izy => true
  | _ => false

inductive Op
  | adc | and | asl | bcc | bcs | beq | bit | bmi | bne | bpl | brk | bvc | bvs | clc | cld | cli | clv
  | cmp | cpx | cpy | dec | dex | dey | eor | inc | inx | iny | jmp | jsr | lda | ldx | ldy | lsr | nop
  | ora | pha | php | pla | plp | rol | ror | rti | rts | sbc | sec | sed | sei | sta | stx | sty | tax
  | tay | tsx | txa | txs | tya
deriving DecidableEq

/-! ### The opcodes, as `aaabbbcc` -/

/-- `cc` = 1: the accumulator and memory. -/
def decodeAlu (aaa bbb : Nat) : Option (Op × Mode) :=
  -- a store to an immediate operand is none
  if aaa = 4 ∧ bbb = 2 then none
  else do
    let op ← [Op.ora, .and, .eor, .adc, .sta, .lda, .cmp, .sbc][aaa]?
    let mode ← [Mode.izx, .zp, .imm, .abs, .izy, .zpx, .aby, .abx][bbb]?
    return (op, mode)

/-- `cc` = 2: shifts and `X`. Where the others are indexed by `X`, `stx` and `ldx` are by `Y`. -/
def decodeShift (aaa bbb : Nat) : Option (Op × Mode) :=
  let ops := [Op.asl, .rol, .lsr, .ror, .stx, .ldx, .dec, .inc]
  let byX := aaa ≠ 4 ∧ aaa ≠ 5
  match bbb with
  | 0 => if aaa = 5 then some (.ldx, .imm) else none
  | 1 => ops[aaa]?.map fun op => (op, .zp)
  | 2 => [(Op.asl, Mode.acc), (.rol, .acc), (.lsr, .acc), (.ror, .acc), (.txa, .imp), (.tax, .imp),
      (.dex, .imp), (.nop, .imp)][aaa]?
  | 3 => ops[aaa]?.map fun op => (op, .abs)
  | 5 => ops[aaa]?.map fun op => (op, if byX then .zpx else .zpy)
  | 6 => if aaa = 4 then some (.txs, .imp) else if aaa = 5 then some (.tsx, .imp) else none
  | 7 => if aaa = 4 then none else ops[aaa]?.map fun op => (op, if byX then .abx else .aby)
  | _ => none

/-- `cc` = 0: control, `Y` and what is left. -/
def decodeControl (aaa bbb : Nat) : Option (Op × Mode) :=
  match bbb with
  | 0 => [some (Op.brk, Mode.imp), some (.jsr, .abs), some (.rti, .imp), some (.rts, .imp), none,
      some (.ldy, .imm), some (.cpy, .imm), some (.cpx, .imm)].getD aaa none
  | 1 => [none, some (Op.bit, Mode.zp), none, none, some (.sty, .zp), some (.ldy, .zp),
      some (.cpy, .zp), some (.cpx, .zp)].getD aaa none
  | 2 => [Op.php, .plp, .pha, .pla, .dey, .tay, .iny, .inx][aaa]?.map fun op => (op, .imp)
  | 3 => [none, some (Op.bit, Mode.abs), some (.jmp, .abs), some (.jmp, .ind), some (.sty, .abs),
      some (.ldy, .abs), some (.cpy, .abs), some (.cpx, .abs)].getD aaa none
  | 4 => [Op.bpl, .bmi, .bvc, .bvs, .bcc, .bcs, .bne, .beq][aaa]?.map fun op => (op, .rel)
  | 5 => if aaa = 4 then some (.sty, .zpx) else if aaa = 5 then some (.ldy, .zpx) else none
  | 6 => [Op.clc, .sec, .cli, .sei, .tya, .clv, .cld, .sed][aaa]?.map fun op => (op, .imp)
  | 7 => if aaa = 5 then some (.ldy, .abx) else none
  | _ => none

/-- The documented instruction of an opcode. -/
def decode (opcode : Nat) : Option (Op × Mode) :=
  match opcode % 4 with
  | 0 => decodeControl (opcode / 32) (opcode / 4 % 8)
  | 1 => decodeAlu (opcode / 32) (opcode / 4 % 8)
  | 2 => decodeShift (opcode / 32) (opcode / 4 % 8)
  | _ => none

/-! ## Registers -/

structure Cpu where
  a : BitVec 8
  x : BitVec 8
  y : BitVec 8
  sp : BitVec 8
  pc : BitVec 16
  n : Bool
  v : Bool
  d : Bool
  i : Bool
  z : Bool
  c : Bool
deriving DecidableEq

namespace Cpu

/-- `Z` and `N` of a result. -/
def setZN (r : Cpu) (value : BitVec 8) : Cpu := { r with z := decide (value = 0), n := value.msb }

def loadA (r : Cpu) (value : BitVec 8) : Cpu := { r.setZN value with a := value }

def loadX (r : Cpu) (value : BitVec 8) : Cpu := { r.setZN value with x := value }

def loadY (r : Cpu) (value : BitVec 8) : Cpu := { r.setZN value with y := value }

/-- A signed result that a byte does not hold. -/
def overflows (value : Int) : Bool := decide (value < -128 ∨ 127 < value)

/-- `A + M + C`. The carry is that of the unsigned sum, `V` says that the signed one overflows. -/
def adc (r : Cpu) (m : BitVec 8) : Cpu :=
  let sum := r.a.toNat + m.toNat + r.c.toNat
  { r.loadA (BitVec.ofNat 8 sum) with
    c := decide (256 ≤ sum)
    v := overflows (r.a.toInt + m.toInt + r.c.toNat) }

/-- `A - M - (1 - C)`. The carry is set when nothing is borrowed. -/
def sbc (r : Cpu) (m : BitVec 8) : Cpu :=
  let difference : Int := r.a.toNat - m.toNat - (!r.c).toNat
  { r.loadA (BitVec.ofInt 8 difference) with
    c := decide (0 ≤ difference)
    v := overflows (r.a.toInt - m.toInt - (!r.c).toNat) }

/-- `register - M`, for the flags. -/
def compare (register : Cpu → BitVec 8) (r : Cpu) (m : BitVec 8) : Cpu :=
  { r.setZN (register r - m) with c := decide (m ≤ register r) }

/-- `Z` of `A ∧ M`; the two upper bits of `M`. -/
def bit (r : Cpu) (m : BitVec 8) : Cpu :=
  { r with z := decide (r.a &&& m = 0), n := m.getLsbD 7, v := m.getLsbD 6 }

/-- A result and the bit that falls out of it. -/
def shifted (r : Cpu) (value : BitVec 8) (carry : Bool) : BitVec 8 × Cpu :=
  (value, { r.setZN value with c := carry })

/-- A result that leaves the carry alone. -/
def counted (r : Cpu) (value : BitVec 8) : BitVec 8 × Cpu := (value, r.setZN value)

/-- The status byte on the stack, with `B` set as by an instruction. -/
def status (r : Cpu) : BitVec 8 :=
  BitVec.ofBoolListBE [r.n, r.v, true, true, r.d, r.i, r.z, r.c]

/-- The flags of a status byte. -/
def setStatus (r : Cpu) (p : BitVec 8) : Cpu :=
  { r with
    n := p.getLsbD 7
    v := p.getLsbD 6
    d := p.getLsbD 3
    i := p.getLsbD 2
    z := p.getLsbD 1
    c := p.getLsbD 0 }

end Cpu

/-- What an instruction does with its operand. -/
inductive Action
  | operand (f : Cpu → BitVec 8 → Cpu)
  | store (f : Cpu → BitVec 8)
  | modify (f : Cpu → BitVec 8 → BitVec 8 × Cpu)
  | register (f : Cpu → Cpu)
  | branch (f : Cpu → Bool)
  | push (f : Cpu → BitVec 8)
  | pull (f : Cpu → BitVec 8 → Cpu)
  | jump
  | call
  | ret
  | interrupt
  | interruptRet

/-- The documented instructions. -/
def Op.action : Op → Action
  | .adc => .operand Cpu.adc
  | .sbc => .operand Cpu.sbc
  | .and => .operand fun r m => r.loadA (r.a &&& m)
  | .ora => .operand fun r m => r.loadA (r.a ||| m)
  | .eor => .operand fun r m => r.loadA (r.a ^^^ m)
  | .cmp => .operand (Cpu.compare Cpu.a)
  | .cpx => .operand (Cpu.compare Cpu.x)
  | .cpy => .operand (Cpu.compare Cpu.y)
  | .bit => .operand Cpu.bit
  | .lda => .operand Cpu.loadA
  | .ldx => .operand Cpu.loadX
  | .ldy => .operand Cpu.loadY
  | .sta => .store Cpu.a
  | .stx => .store Cpu.x
  | .sty => .store Cpu.y
  | .asl => .modify fun r m => r.shifted (m <<< 1) m.msb
  | .lsr => .modify fun r m => r.shifted (m >>> 1) (m.getLsbD 0)
  -- nine bits, the carry next to the byte
  | .rol => .modify fun r m => r.shifted ((m ++ BitVec.ofBool r.c).extractLsb' 0 8) m.msb
  | .ror => .modify fun r m => r.shifted ((BitVec.ofBool r.c ++ m).extractLsb' 1 8) (m.getLsbD 0)
  | .inc => .modify fun r m => r.counted (m + 1)
  | .dec => .modify fun r m => r.counted (m - 1)
  | .inx => .register fun r => r.loadX (r.x + 1)
  | .iny => .register fun r => r.loadY (r.y + 1)
  | .dex => .register fun r => r.loadX (r.x - 1)
  | .dey => .register fun r => r.loadY (r.y - 1)
  | .tax => .register fun r => r.loadX r.a
  | .tay => .register fun r => r.loadY r.a
  | .txa => .register fun r => r.loadA r.x
  | .tya => .register fun r => r.loadA r.y
  | .tsx => .register fun r => r.loadX r.sp
  | .txs => .register fun r => { r with sp := r.x }
  | .clc => .register fun r => { r with c := false }
  | .sec => .register fun r => { r with c := true }
  | .cli => .register fun r => { r with i := false }
  | .sei => .register fun r => { r with i := true }
  | .clv => .register fun r => { r with v := false }
  | .cld => .register fun r => { r with d := false }
  | .sed => .register fun r => { r with d := true }
  | .nop => .register id
  | .bcc => .branch fun r => !r.c
  | .bcs => .branch Cpu.c
  | .bne => .branch fun r => !r.z
  | .beq => .branch Cpu.z
  | .bpl => .branch fun r => !r.n
  | .bmi => .branch Cpu.n
  | .bvc => .branch fun r => !r.v
  | .bvs => .branch Cpu.v
  | .pha => .push Cpu.a
  | .php => .push Cpu.status
  | .pla => .pull Cpu.loadA
  | .plp => .pull Cpu.setStatus
  | .jmp => .jump
  | .jsr => .call
  | .rts => .ret
  | .brk => .interrupt
  | .rti => .interruptRet

/-- Whether a branch is taken depends on the flags. -/
theorem Op.branch_pc {op : Op} {f : Cpu → Bool} (h : op.action = .branch f) (r : Cpu)
    (pc : BitVec 16) : f { r with pc := pc } = f r := by
  cases op with
  | bcc | bcs | bne | beq | bpl | bmi | bvc | bvs =>
    cases h
    rfl
  | _ => cases h

/-- The modes that an instruction comes in. -/
def Op.takes (op : Op) (mode : Mode) : Bool :=
  match op.action with
  | .operand _ => mode = .imm ∨ mode.inMemory
  | .store _ => mode.inMemory
  | .modify _ => mode.inMemory ∨ mode = .acc ∧ op ∈ [Op.asl, .lsr, .rol, .ror]
  | .branch _ => mode = .rel
  | .jump => mode = .abs ∨ mode = .ind
  | .call => mode = .abs
  | _ => mode = .imp

/-- The opcodes give an instruction no other mode. -/
theorem decode_takes {opcode : Nat} {op : Op} {mode : Mode} (hbyte : opcode < 0x100)
    (h : decode opcode = some (op, mode)) : op.takes mode = true := by
  have hall : ∀ opcode < 0x100, ∀ e ∈ decode opcode, e.1.takes e.2 = true := by decide +kernel
  exact hall opcode hbyte _ h

/-! ## Memory and the bus -/

/-- Devices on a window of the bus. -/
structure Devices (δ : Type) where
  window : BitVec 16 → Bool
  read : BitVec 16 → δ → δ × BitVec 8
  write : BitVec 16 → BitVec 8 → δ → δ

structure State (δ : Type) where
  cpu : Cpu
  mem : BitVec 16 → BitVec 8
  dev : δ

variable {δ : Type}

namespace State

def setPc (s : State δ) (pc : BitVec 16) : State δ := { s with cpu := { s.cpu with pc := pc } }

/-- The bytes of the instruction behind its opcode. -/
def lowByte (s : State δ) : BitVec 8 := s.mem (s.cpu.pc + 1)

def highByte (s : State δ) : BitVec 8 := s.mem (s.cpu.pc + 1 + 1)

/-- The pointer at an address of page zero, where it wraps around. -/
def pointer (s : State δ) (addr : BitVec 8) : BitVec 16 :=
  s.mem (0#8 ++ (addr + 1)) ++ s.mem (0#8 ++ addr)

/-- The address of the operand, for the modes that have one. Indexed addresses wrap around at the end
of page zero, or of memory. -/
def effective (s : State δ) : Mode → BitVec 16
  | .zp => 0#8 ++ s.lowByte
  | .zpx => 0#8 ++ (s.lowByte + s.cpu.x)
  | .zpy => 0#8 ++ (s.lowByte + s.cpu.y)
  | .abs | .ind => s.highByte ++ s.lowByte
  | .abx => (s.highByte ++ s.lowByte) + s.cpu.x.setWidth 16
  | .aby => (s.highByte ++ s.lowByte) + s.cpu.y.setWidth 16
  | .izx => s.pointer (s.lowByte + s.cpu.x)
  | .izy => s.pointer s.lowByte + s.cpu.y.setWidth 16
  | .imp | .acc | .imm | .rel => s.cpu.pc + 1

/-- The next byte of the same page: where `jmp` looks for the upper half of its pointer. -/
def inPage (addr : BitVec 16) : BitVec 16 := addr.extractLsb' 8 8 ++ (addr.setWidth 8 + 1)

/-! ### The bus -/

def read (dv : Devices δ) (s : State δ) (addr : BitVec 16) : BitVec 8 × State δ :=
  if dv.window addr then
    let r := dv.read addr s.dev
    (r.2, { s with dev := r.1 })
  else (s.mem addr, s)

def write (dv : Devices δ) (s : State δ) (addr : BitVec 16) (value : BitVec 8) : State δ :=
  if dv.window addr then { s with dev := dv.write addr value s.dev }
  else { s with mem := Function.update s.mem addr value }

theorem read_of_memory {dv : Devices δ} (s : State δ) {addr : BitVec 16} (h : dv.window addr = false) :
    s.read dv addr = (s.mem addr, s) := if_neg (by rw [h]; decide)

theorem write_of_memory {dv : Devices δ} (s : State δ) {addr : BitVec 16} (value : BitVec 8)
    (h : dv.window addr = false) :
    s.write dv addr value = { s with mem := Function.update s.mem addr value } :=
  if_neg (by rw [h]; decide)

/-! ### The stack -/

/-- Page one; the pointer wraps around in it. -/
def push (s : State δ) (value : BitVec 8) : State δ :=
  { s with
    mem := Function.update s.mem (1#8 ++ s.cpu.sp) value
    cpu := { s.cpu with sp := s.cpu.sp - 1 } }

def pull (s : State δ) : BitVec 8 × State δ :=
  (s.mem (1#8 ++ (s.cpu.sp + 1)), { s with cpu := { s.cpu with sp := s.cpu.sp + 1 } })

/-- The upper half first. -/
def pushAddress (s : State δ) (value : BitVec 16) : State δ :=
  (s.push (value.extractLsb' 8 8)).push (value.setWidth 8)

def pullAddress (s : State δ) : BitVec 16 × State δ :=
  let lo := s.pull
  let hi := lo.2.pull
  (hi.1 ++ lo.1, hi.2)

/-! ## One instruction -/

/-- Past the instruction. -/
def next (s : State δ) (mode : Mode) : State δ := s.setPc (s.cpu.pc + BitVec.ofNat 16 mode.length)

/-- What the instruction at the program counter does. -/
def exec (dv : Devices δ) (s : State δ) (op : Op) (mode : Mode) : State δ :=
  match op.action with
  | .operand f =>
    let r := if mode = .imm then (s.lowByte, s.next mode) else (s.next mode).read dv (s.effective mode)
    { r.2 with cpu := f r.2.cpu r.1 }
  | .store f => (s.next mode).write dv (s.effective mode) (f (s.next mode).cpu)
  | .modify f =>
    if mode = .acc then
      let r := f (s.next mode).cpu (s.next mode).cpu.a
      { s.next mode with cpu := { r.2 with a := r.1 } }
    else
      let m := (s.next mode).read dv (s.effective mode)
      let r := f m.2.cpu m.1
      ({ m.2 with cpu := r.2 } : State δ).write dv (s.effective mode) r.1
  | .register f => { s.next mode with cpu := f (s.next mode).cpu }
  | .branch f =>
    if f s.cpu then (s.next mode).setPc ((s.next mode).cpu.pc + s.lowByte.signExtend 16)
    else s.next mode
  | .push f => (s.next mode).push (f (s.next mode).cpu)
  | .pull f =>
    let r := (s.next mode).pull
    { r.2 with cpu := f r.2.cpu r.1 }
  | .jump =>
    if mode = .ind then
      let lo := (s.next mode).read dv (s.effective mode)
      let hi := lo.2.read dv (inPage (s.effective mode))
      hi.2.setPc (hi.1 ++ lo.1)
    else (s.next mode).setPc (s.effective mode)
  -- the return address is that of the last byte of the `jsr`
  | .call => ((s.next mode).pushAddress ((s.next mode).cpu.pc - 1)).setPc (s.effective mode)
  | .ret =>
    let r := (s.next mode).pullAddress
    r.2.setPc (r.1 + 1)
  | .interrupt =>
    let r := ((s.next mode).pushAddress (s.cpu.pc + 2)).push s.cpu.status
    ({ r with cpu := { r.cpu with i := true } } : State δ).setPc (s.mem 0xffff ++ s.mem 0xfffe)
  | .interruptRet =>
    let p := (s.next mode).pull
    let r := ({ p.2 with cpu := p.2.cpu.setStatus p.1 } : State δ).pullAddress
    r.2.setPc r.1

end State

/-! ## What the devices see -/

/-- An operand over the bus. -/
inductive Access
  | read (addr : BitVec 16)
  | write (addr : BitVec 16) (value : BitVec 8)

/-- A device sees an access in the window. -/
def Devices.see (dv : Devices δ) (dev : δ) : Access → δ
  | .read addr => if dv.window addr then (dv.read addr dev).1 else dev
  | .write addr value => if dv.window addr then dv.write addr value dev else dev

/-- The accesses of an instruction: an operand is read once and written once. -/
def State.accesses (dv : Devices δ) (s : State δ) (op : Op) (mode : Mode) : List Access :=
  match op.action with
  | .operand _ => if mode = .imm then [] else [.read (s.effective mode)]
  | .store f => [.write (s.effective mode) (f (s.next mode).cpu)]
  | .modify f =>
    if mode = .acc then []
    else
      let m := ((s.next mode).read dv (s.effective mode)).1
      [.read (s.effective mode), .write (s.effective mode) (f (s.next mode).cpu m).1]
  | .jump =>
    if mode = .ind then [.read (s.effective mode), .read (inPage (s.effective mode))] else []
  | _ => []

namespace State

theorem read_dev (dv : Devices δ) (s : State δ) (addr : BitVec 16) :
    (s.read dv addr).2.dev = dv.see s.dev (.read addr) := by
  rw [read, Devices.see]
  split <;> rfl

theorem read_cpu (dv : Devices δ) (s : State δ) (addr : BitVec 16) :
    (s.read dv addr).2.cpu = s.cpu := by
  rw [read]
  split <;> rfl

theorem write_dev (dv : Devices δ) (s : State δ) (addr : BitVec 16) (value : BitVec 8) :
    (s.write dv addr value).dev = dv.see s.dev (.write addr value) := by
  rw [write, Devices.see]
  split <;> rfl

/-- **The devices see the accesses of the instruction, in order, and nothing else.** -/
theorem exec_dev (dv : Devices δ) (s : State δ) (op : Op) (mode : Mode) :
    (s.exec dv op mode).dev = (s.accesses dv op mode).foldl dv.see s.dev := by
  rw [exec, accesses]
  cases op.action with
  | operand f =>
    dsimp only
    split
    · rfl
    · exact read_dev dv (s.next mode) _
  | store f => exact write_dev dv (s.next mode) _ _
  | modify f =>
    dsimp only
    split
    · rfl
    · rw [write_dev, read_cpu, read_dev]
      rfl
  | branch f =>
    dsimp only
    split <;> rfl
  | jump =>
    dsimp only
    split
    · change (State.read dv _ _).2.dev = _
      rw [read_dev, read_dev]
      rfl
    · rfl
  | _ => rfl

end State

end Nmos6502
