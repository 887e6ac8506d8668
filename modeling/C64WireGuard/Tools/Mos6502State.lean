import C64WireGuard.Tools.Mos6502

/-!
# Machines of processor states

A processor state is what the interpreter keeps in its fields, as Python integers (`ofState`), and a
machine in range is that of the state in it (`ofState_view`). On such a machine the bus, the stack and
the addressing modes give what the processor finds there.
-/

namespace C64WireGuard.Tools.Mos6502

open Nmos6502 (Op Mode Action Cpu State Devices Access)

variable {σ α β : Type}

/-! ## Registers and cells -/

/-- What the interpreter has besides a processor state. -/
structure Rest where
  ioLo : Int
  ioHi : Int
  cycles : Nat
  instructions : Nat

/-- The fields that hold a processor state. -/
def ofState (s : State σ) (k : Rest) : Mos6502 σ where
  mem addr := (s.mem addr).toNat
  ioLo := k.ioLo
  ioHi := k.ioHi
  a := s.cpu.a.toNat
  x := s.cpu.x.toNat
  y := s.cpu.y.toNat
  sp := s.cpu.sp.toNat
  pc := s.cpu.pc.toNat
  c := s.cpu.c.toNat
  z := s.cpu.z.toNat
  v := s.cpu.v.toNat
  n := s.cpu.n.toNat
  i := s.cpu.i.toNat
  d := s.cpu.d.toNat
  cycles := k.cycles
  instructions := k.instructions
  dev := s.dev

/-- The hooks as devices, at the clock that they see. -/
def devices (io : Io σ) (k : Rest) : Devices σ where
  window addr := decide (k.ioLo ≤ addr.toNat ∧ (addr.toNat : Int) < k.ioHi)
  read addr dev := ((io.read k.cycles addr.toNat dev).1, BitVec.ofInt 8 (io.read k.cycles addr.toNat dev).2)
  write addr value dev := io.write k.cycles addr.toNat value.toNat dev

/-- All registers and cells are in range. -/
structure InRange (m : Mos6502 σ) : Prop where
  a : m.a < 0x100
  x : m.x < 0x100
  y : m.y < 0x100
  sp : m.sp < 0x100
  pc : m.pc < 0x10000
  c : m.c < 2
  z : m.z < 2
  v : m.v < 2
  n : m.n < 2
  i : m.i < 2
  d : m.d < 2
  mem : ∀ addr, m.mem addr < 0x100

/-- The processor state in a machine. -/
def view (m : Mos6502 σ) : State σ where
  cpu :=
    { a := BitVec.ofNat 8 m.a
      x := BitVec.ofNat 8 m.x
      y := BitVec.ofNat 8 m.y
      sp := BitVec.ofNat 8 m.sp
      pc := BitVec.ofNat 16 m.pc
      n := m.n != 0
      v := m.v != 0
      d := m.d != 0
      i := m.i != 0
      z := m.z != 0
      c := m.c != 0 }
  mem addr := BitVec.ofNat 8 (m.mem addr)
  dev := m.dev

/-- The rest of it. -/
def rest (m : Mos6502 σ) : Rest where
  ioLo := m.ioLo
  ioHi := m.ioHi
  cycles := m.cycles
  instructions := m.instructions

theorem ofState_inRange (s : State σ) (k : Rest) : (ofState s k).InRange where
  a := s.cpu.a.isLt
  x := s.cpu.x.isLt
  y := s.cpu.y.isLt
  sp := s.cpu.sp.isLt
  pc := s.cpu.pc.isLt
  c := Bool.toNat_lt _
  z := Bool.toNat_lt _
  v := Bool.toNat_lt _
  n := Bool.toNat_lt _
  i := Bool.toNat_lt _
  d := Bool.toNat_lt _
  mem addr := (s.mem addr).isLt

theorem toNat_bne_zero {b : Nat} (h : b < 2) : (b != 0).toNat = b := by
  obtain rfl | rfl : b = 0 ∨ b = 1 := by omega
  · rfl
  · rfl

theorem bne_toNat_zero (b : Bool) : (b.toNat != 0) = b := by
  cases b <;> rfl

/-- A machine in range is that of the processor state in it. -/
theorem ofState_view {m : Mos6502 σ} (h : m.InRange) : ofState m.view m.rest = m := by
  have hbyte : ∀ {n : Nat}, n < 0x100 → (BitVec.ofNat 8 n).toNat = n := fun h => Nat.mod_eq_of_lt h
  have hmem : (fun addr => (BitVec.ofNat 8 (m.mem addr)).toNat) = m.mem :=
    funext fun addr => hbyte (h.mem addr)
  have hpc : (BitVec.ofNat 16 m.pc).toNat = m.pc := Nat.mod_eq_of_lt h.pc
  simp only [ofState, view, rest, hmem, hpc, hbyte h.a, hbyte h.x, hbyte h.y, hbyte h.sp,
    toNat_bne_zero h.c, toNat_bne_zero h.z, toNat_bne_zero h.v,
    toNat_bne_zero h.n, toNat_bne_zero h.i, toNat_bne_zero h.d]

theorem view_ofState (s : State σ) (k : Rest) : (ofState s k).view = s := by
  simp only [view, ofState, BitVec.ofNat_toNat, BitVec.setWidth_eq, bne_toNat_zero]

theorem rest_ofState (s : State σ) (k : Rest) : (ofState s k).rest = k := rfl

/-! ## Runs of methods -/

theorem bind_run {x : Method σ α} {f : α → Method σ β} {m m' : Mos6502 σ} {v : α}
    {r : Except Fault (β × Mos6502 σ)} (hx : x.run m = .ok (v, m')) (hf : (f v).run m' = r) :
    (x >>= f).run m = r := by
  rw [StateT.run_bind, hx]
  exact hf

variable {s : State σ} {k : Rest}

/-! ### Numbers -/

theorem and_ff (n : Nat) : n &&& 0xff = (BitVec.ofNat 8 n).toNat :=
  Nat.and_two_pow_sub_one_eq_mod n 8

theorem and_ffff (n : Nat) : n &&& 0xffff = (BitVec.ofNat 16 n).toNat :=
  Nat.and_two_pow_sub_one_eq_mod n 16

theorem byte_and_ff (v : BitVec 8) : v.toNat &&& 0xff = v.toNat := by
  rw [and_ff, BitVec.ofNat_toNat, BitVec.setWidth_eq]

theorem lowByte_eq (i : Int) : lowByte i = (BitVec.ofInt 8 i).toNat :=
  (BitVec.toNat_ofInt (n := 8) i).symm

theorem lowWord_eq (i : Int) : lowWord i = (BitVec.ofInt 16 i).toNat :=
  (BitVec.toNat_ofInt (n := 16) i).symm

/-- Two bytes of an address. -/
theorem word_eq (lo hi : BitVec 8) : lo.toNat ||| hi.toNat <<< 8 = (hi ++ lo).toNat :=
  Nat.or_comm _ _

theorem zeroPage_eq (v : BitVec 8) : v.toNat = (0#8 ++ v).toNat := by
  rw [BitVec.toNat_append]
  exact (Nat.zero_or _).symm

theorem stack_eq (sp : BitVec 8) : 0x100 + sp.toNat = (1#8 ++ sp).toNat := by
  rw [BitVec.toNat_append]
  exact Nat.shiftLeft_add_eq_or_of_lt sp.isLt 1

/-- The bit that a mask tests. -/
theorem ite_and_ne_zero (n i : Nat) :
    (if n &&& 2 ^ i ≠ 0 then 1 else 0) = (n.testBit i).toNat := by
  rw [Nat.and_two_pow]
  cases n.testBit i with
  | false => simp
  | true => simp

theorem ite_toNat (p : Prop) [Decidable p] : (if p then 1 else 0) = (decide p).toNat := by
  split
  · rename_i h
    rw [decide_eq_true h]
    rfl
  · rename_i h
    rw [decide_eq_false h]
    rfl

/-! ### Memory, bus and stack -/

theorem getMem_run {n : Nat} {addr : BitVec 16} (h : n = addr.toNat) :
    (getMem n).run (ofState s k) = .ok ((s.mem addr).toNat, ofState s k) := by
  subst h
  have hget : (ofState s k).mem (BitVec.ofNat 16 addr.toNat) = (s.mem addr).toNat := by
    rw [BitVec.ofNat_toNat, BitVec.setWidth_eq]
    rfl
  refine bind_run rfl ?_
  rw [if_pos addr.isLt, hget]
  rfl

theorem setMem_run {n w : Nat} {addr : BitVec 16} {value : BitVec 8} (h : n = addr.toNat)
    (hw : w = value.toNat) :
    (setMem n w).run (ofState s k) =
      .ok ((), ofState { s with mem := Function.update s.mem addr value } k) := by
  subst h hw
  have hmem : (fun a => ((Function.update s.mem addr value) a).toNat) =
      Function.update (fun a => (s.mem a).toNat) addr value.toNat := by
    funext a
    by_cases ha : a = addr
    · rw [ha, Function.update_self, Function.update_self]
    · rw [Function.update_of_ne ha, Function.update_of_ne ha]
  have haddr : BitVec.ofNat 16 addr.toNat = addr := by rw [BitVec.ofNat_toNat, BitVec.setWidth_eq]
  rw [setMem, if_pos addr.isLt, if_pos value.isLt, haddr]
  simp only [ofState, hmem]
  rfl

theorem inIo_iff (io : Io σ) (addr : BitVec 16) :
    (ofState s k).InIo addr.toNat ↔ (devices io k).window addr = true := by
  rw [devices, decide_eq_true_iff]
  exact Iff.rfl

theorem rd_run (io : Io σ) {n : Nat} {addr : BitVec 16} (h : n = addr.toNat) :
    (rd io n).run (ofState s k) =
      .ok ((s.read (devices io k) addr).1.toNat, ofState (s.read (devices io k) addr).2 k) := by
  subst h
  refine bind_run rfl ?_
  rw [State.read]
  by_cases hio : (ofState s k).InIo addr.toNat
  · rw [if_pos hio, if_pos ((inIo_iff io addr).mp hio)]
    let r := io.read k.cycles addr.toNat s.dev
    exact congrArg (fun v => Except.ok (v, ofState { s with dev := r.1 } k)) (lowByte_eq r.2)
  · rw [if_neg hio, if_neg (fun hw => hio ((inIo_iff io addr).mpr hw))]
    exact getMem_run rfl

theorem wr_run (io : Io σ) {n w : Nat} {addr : BitVec 16} {value : BitVec 8} (h : n = addr.toNat)
    (hw : w = value.toNat) :
    (wr io n w).run (ofState s k) = .ok ((), ofState (s.write (devices io k) addr value) k) := by
  subst h hw
  refine bind_run rfl ?_
  rw [State.write, byte_and_ff]
  by_cases hio : (ofState s k).InIo addr.toNat
  · rw [if_pos hio, if_pos ((inIo_iff io addr).mp hio)]
    rfl
  · rw [if_neg hio, if_neg (fun hw => hio ((inIo_iff io addr).mpr hw))]
    exact setMem_run rfl rfl

theorem push_run {w : Nat} {value : BitVec 8} (h : w &&& 0xff = value.toNat) :
    (push w).run (ofState s k) = .ok ((), ofState (s.push value) k) := by
  have hsp : lowByte ((s.cpu.sp.toNat : Int) - 1) = (s.cpu.sp - 1).toNat := by
    have hlt := s.cpu.sp.isLt
    rw [lowByte, BitVec.toNat_sub]
    change _ = (2 ^ 8 - 1 + _) % 2 ^ 8
    omega
  refine bind_run rfl ?_
  refine bind_run (setMem_run (stack_eq s.cpu.sp) h) ?_
  rw [State.push]
  simp only [ofState, ← hsp]
  rfl

theorem pop_run :
    (pop : Method σ Nat).run (ofState s k) = .ok (s.pull.1.toNat, ofState s.pull.2 k) := by
  have hsp : (s.cpu.sp.toNat + 1) &&& 0xff = (s.cpu.sp + 1).toNat := by
    rw [and_ff]
    rfl
  have hstep : (modify fun self : Mos6502 σ => { self with sp := (self.sp + 1) &&& 0xff }
      : Method σ Unit).run (ofState s k) = .ok ((), ofState s.pull.2 k) := by
    simp only [State.pull, ofState, ← hsp]
    rfl
  refine bind_run hstep ?_
  refine bind_run rfl ?_
  exact getMem_run (stack_eq _)

/-! ### Addresses -/

theorem setPc_run {n : Nat} {pc : BitVec 16} (h : n = pc.toNat) :
    (setPc n).run (ofState s k) = .ok ((), ofState (s.setPc pc) k) := by
  subst h
  rfl

theorem getWord_run {addr : BitVec 16} (h : addr.toNat + 1 < 0x10000) :
    (getWord addr.toNat).run (ofState s k) =
      .ok ((s.mem (addr + 1) ++ s.mem addr).toNat, ofState s k) := by
  have hnext : addr.toNat + 1 = (addr + 1).toNat := (Nat.mod_eq_of_lt h).symm
  refine bind_run (getMem_run rfl) ?_
  refine bind_run (getMem_run hnext) ?_
  rw [word_eq]
  rfl

theorem getPointer_run {n : Nat} {zp : BitVec 8} (h : n = zp.toNat) :
    (getPointer n).run (ofState s k) = .ok ((s.pointer zp).toNat, ofState s k) := by
  subst h
  have hnext : (zp.toNat + 1) &&& 0xff = (0#8 ++ (zp + 1)).toNat := by
    rw [and_ff, ← zeroPage_eq]
    rfl
  refine bind_run (getMem_run (zeroPage_eq zp)) ?_
  refine bind_run (getMem_run hnext) ?_
  rw [word_eq]
  rfl

theorem pageCross_run (penalise : Bool) (base eff : Nat) :
    ∃ cycles, (pageCross penalise base eff).run (ofState s k) =
      .ok ((), ofState s { k with cycles := cycles }) := by
  rw [pageCross]
  split
  · exact ⟨_, rfl⟩
  · exact ⟨_, rfl⟩

/-- An index in page zero. -/
theorem zeroPage_add (v x : BitVec 8) : (v.toNat + x.toNat) &&& 0xff = (v + x).toNat := by
  rw [and_ff]
  rfl

/-- An index in memory. -/
theorem word_add (w : BitVec 16) (x : BitVec 8) :
    (w.toNat + x.toNat) &&& 0xffff = (w + x.setWidth 16).toNat := by
  have hx := x.isLt
  rw [and_ffff, BitVec.toNat_add, BitVec.toNat_setWidth, BitVec.toNat_ofNat]
  omega

/-- The program counter behind the opcode, and behind the operand. -/
theorem operand_pc (s : State σ) (hpc : s.cpu.pc.toNat ≤ 0xfffc) :
    (s.cpu.pc + 1).toNat + 1 < 0x10000 ∧
      (((s.cpu.pc + 1).toNat + 1) &&& 0xffff) = (s.cpu.pc + 2#16).toNat ∧
      (((s.cpu.pc + 1).toNat + 2) &&& 0xffff) = (s.cpu.pc + 3#16).toNat := by
  have hone : (1 : BitVec 16).toNat = 1 := rfl
  simp only [and_ffff, BitVec.toNat_add, BitVec.toNat_ofNat, hone]
  omega

/-- `_addr` finds the address of the operand. -/
theorem addr_run (io : Io σ) (penalise : Bool) {mode : Mode} (hmode : mode.inMemory = true)
    (hpc : s.cpu.pc.toNat ≤ 0xfffc) :
    ∃ cycles, (addr io mode penalise).run (ofState (s.setPc (s.cpu.pc + 1)) k) =
      .ok ((s.effective mode).toNat, ofState (s.next mode) { k with cycles := cycles }) := by
  obtain ⟨hlt, htwo, hthree⟩ := operand_pc s hpc
  have hcross := fun base eff => pageCross_run (s := s.next mode) (k := k) penalise base eff
  cases mode with
  | zp =>
    refine ⟨k.cycles, bind_run rfl (bind_run (setPc_run htwo) ?_)⟩
    rw [State.effective, ← zeroPage_eq]
    exact getMem_run rfl
  | zpx =>
    refine ⟨k.cycles, bind_run rfl (bind_run (setPc_run htwo) (bind_run (getMem_run rfl) ?_))⟩
    rw [State.effective, ← zeroPage_eq]
    exact congrArg (fun v => Except.ok (v, ofState (s.next .zpx) k)) (zeroPage_add _ _)
  | zpy =>
    refine ⟨k.cycles, bind_run rfl (bind_run (setPc_run htwo) (bind_run (getMem_run rfl) ?_))⟩
    rw [State.effective, ← zeroPage_eq]
    exact congrArg (fun v => Except.ok (v, ofState (s.next .zpy) k)) (zeroPage_add _ _)
  | abs =>
    exact ⟨k.cycles, bind_run rfl (bind_run (setPc_run hthree) (getWord_run hlt))⟩
  | abx =>
    obtain ⟨cycles, hcycles⟩ := hcross (s.highByte ++ s.lowByte).toNat
      (((s.highByte ++ s.lowByte).toNat + s.cpu.x.toNat) &&& 0xffff)
    refine ⟨cycles, bind_run rfl (bind_run (setPc_run hthree) (bind_run (getWord_run hlt) ?_))⟩
    refine bind_run hcycles ?_
    exact congrArg (fun v => Except.ok (v, ofState (s.next .abx) { k with cycles := cycles }))
      (word_add _ _)
  | aby =>
    obtain ⟨cycles, hcycles⟩ := hcross (s.highByte ++ s.lowByte).toNat
      (((s.highByte ++ s.lowByte).toNat + s.cpu.y.toNat) &&& 0xffff)
    refine ⟨cycles, bind_run rfl (bind_run (setPc_run hthree) (bind_run (getWord_run hlt) ?_))⟩
    refine bind_run hcycles ?_
    exact congrArg (fun v => Except.ok (v, ofState (s.next .aby) { k with cycles := cycles }))
      (word_add _ _)
  | izx =>
    refine ⟨k.cycles, bind_run rfl (bind_run (setPc_run htwo) (bind_run (getMem_run rfl) ?_))⟩
    exact getPointer_run (zeroPage_add _ _)
  | izy =>
    obtain ⟨cycles, hcycles⟩ := hcross (s.pointer s.lowByte).toNat
      (((s.pointer s.lowByte).toNat + s.cpu.y.toNat) &&& 0xffff)
    refine ⟨cycles, bind_run rfl (bind_run (setPc_run htwo) (bind_run (getMem_run rfl) ?_))⟩
    refine bind_run (getPointer_run rfl) (bind_run hcycles ?_)
    exact congrArg (fun v => Except.ok (v, ofState (s.next .izy) { k with cycles := cycles }))
      (word_add _ _)
  | imp | acc | imm | ind | rel => exact absurd hmode (by decide)

end C64WireGuard.Tools.Mos6502
