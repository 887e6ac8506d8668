import C64WireGuard.Tools.Mos6502State

/-!
# The interpreter follows the processor

Each operation does on the machine of a processor state what the documented instruction does to that
state; one lemma for each, by instruction class. `step` does so for every documented opcode but `brk`
and `sed`, and decimal arithmetic (`step_exec`).
-/

namespace C64WireGuard.Tools.Mos6502

open Nmos6502 (Op Mode Action Cpu State Devices Access)

variable {σ : Type} {io : Io σ} {s s' : State σ} {k k' : Rest}

/-! ## Registers -/

theorem testBit_seven (v : BitVec 8) : v.toNat.testBit 7 = v.msb := (BitVec.msb_eq_getLsbD_last v).symm

theorem setzn_run {n : Nat} {v : BitVec 8} (h : n = v.toNat) :
    (setzn n).run (ofState s k) =
      .ok (v.toNat, ofState { s with cpu := s.cpu.setZN v } k) := by
  subst h
  have hz : (if v.toNat = 0 then 1 else 0) = (decide (v = 0)).toNat := by
    rw [ite_toNat]
    exact congrArg Bool.toNat (decide_eq_decide.mpr (BitVec.toNat_inj (y := 0)))
  have hn : (if v.toNat &&& 0x80 ≠ 0 then 1 else 0) = v.msb.toNat := by
    rw [← testBit_seven]
    exact ite_and_ne_zero v.toNat 7
  simp only [ofState, Cpu.setZN, ← hz, ← hn]
  rfl

theorem setA_run {n : Nat} {v : BitVec 8} (h : n = v.toNat) :
    (setA n).run (ofState s k) =
      .ok ((), ofState { s with cpu := { s.cpu with a := v } } k) := by
  subst h
  rfl

theorem setX_run {n : Nat} {v : BitVec 8} (h : n = v.toNat) :
    (setX n).run (ofState s k) =
      .ok ((), ofState { s with cpu := { s.cpu with x := v } } k) := by
  subst h
  rfl

theorem setY_run {n : Nat} {v : BitVec 8} (h : n = v.toNat) :
    (setY n).run (ofState s k) =
      .ok ((), ofState { s with cpu := { s.cpu with y := v } } k) := by
  subst h
  rfl

theorem setC_run {n : Nat} {carry : Bool} (h : n = carry.toNat) :
    (setC n).run (ofState s k) =
      .ok ((), ofState { s with cpu := { s.cpu with c := carry } } k) := by
  subst h
  rfl

/-- A register takes a value, and the flags follow it. -/
theorem loadA_run {n : Nat} {v : BitVec 8} (h : n = v.toNat) :
    (do setA (← setzn n)).run (ofState s k) =
      .ok ((), ofState { s with cpu := s.cpu.loadA v } k) :=
  bind_run (setzn_run h) (setA_run rfl)

theorem loadX_run {n : Nat} {v : BitVec 8} (h : n = v.toNat) :
    (do setX (← setzn n)).run (ofState s k) =
      .ok ((), ofState { s with cpu := s.cpu.loadX v } k) :=
  bind_run (setzn_run h) (setX_run rfl)

theorem loadY_run {n : Nat} {v : BitVec 8} (h : n = v.toNat) :
    (do setY (← setzn n)).run (ofState s k) =
      .ok ((), ofState { s with cpu := s.cpu.loadY v } k) :=
  bind_run (setzn_run h) (setY_run rfl)

/-- Differences of bytes wrap around. -/
theorem lowByte_sub (v w : BitVec 8) : lowByte ((v.toNat : Int) - w.toNat) = (v - w).toNat := by
  have hv := v.isLt
  have hw := w.isLt
  rw [lowByte, BitVec.toNat_sub]
  omega

theorem lowByte_pred (v : BitVec 8) : lowByte ((v.toNat : Int) - 1) = (v - 1).toNat :=
  lowByte_sub v 1

/-! ## Sums -/

theorem toInt_cases (v : BitVec 8) :
    v.toNat < 128 ∧ v.toInt = v.toNat ∨ 128 ≤ v.toNat ∧ v.toInt = v.toNat - 256 := by
  have hlt := v.isLt
  rw [BitVec.toInt_eq_toNat_cond]
  omega

theorem testBit_seven_eq (v : BitVec 8) : v.toNat.testBit 7 = decide (128 ≤ v.toNat) := by
  rw [testBit_seven, BitVec.msb_eq_decide]

/-- The sum overflows when both summands have the sign that it has not. -/
theorem overflow_eq (a m r : Nat) :
    (if notAnd (a ^^^ m) (a ^^^ r) &&& 0x80 ≠ 0 then 1 else 0) =
      (!(a.testBit 7 ^^ m.testBit 7) && (a.testBit 7 ^^ r.testBit 7)).toNat := by
  have hbit := ite_and_ne_zero (notAnd (a ^^^ m) (a ^^^ r)) 7
  rw [notAnd, Nat.testBit_ldiff, Nat.testBit_xor, Nat.testBit_xor, Bool.and_comm] at hbit
  exact hbit

theorem overflows_eq (a m : BitVec 8) (c : Bool) :
    (!(a.toNat.testBit 7 ^^ m.toNat.testBit 7) &&
        (a.toNat.testBit 7 ^^ (BitVec.ofNat 8 (a.toNat + m.toNat + c.toNat)).toNat.testBit 7)) =
      Cpu.overflows (a.toInt + m.toInt + c.toNat) := by
  have hc := c.toNat_le
  rw [testBit_seven_eq, testBit_seven_eq, testBit_seven_eq, BitVec.toNat_ofNat, Cpu.overflows]
  rcases toInt_cases a with ⟨ha, hta⟩ | ⟨ha, hta⟩
  · have hda : decide (128 ≤ a.toNat) = false := decide_eq_false (by omega)
    rcases toInt_cases m with ⟨hm, htm⟩ | ⟨hm, htm⟩
    · have hdm : decide (128 ≤ m.toNat) = false := decide_eq_false (by omega)
      rw [hda, hdm, hta, htm, Bool.xor_self, Bool.not_false, Bool.true_and, Bool.false_xor]
      exact decide_eq_decide.mpr (by omega)
    · rw [hda, decide_eq_true hm, hta, htm]
      exact (decide_eq_false (by omega)).symm
  · have hda := decide_eq_true ha
    rcases toInt_cases m with ⟨hm, htm⟩ | ⟨hm, htm⟩
    · have hdm : decide (128 ≤ m.toNat) = false := decide_eq_false (by omega)
      rw [hda, hdm, hta, htm]
      exact (decide_eq_false (by omega)).symm
    · have halt := a.isLt
      have hmlt := m.isLt
      rw [hda, decide_eq_true hm, hta, htm, Bool.xor_self, Bool.not_false, Bool.true_and, Bool.true_xor,
        ← decide_not]
      exact decide_eq_decide.mpr (by omega)

/-- The sum of `_op_ADC`, and of `_op_SBC` with the operand inverted. -/
theorem addOperand_run (m : BitVec 8) :
    (addOperand m.toNat).run (ofState s k) =
      .ok ((), ofState { s with cpu := s.cpu.adc m } k) := by
  have hc : (if s.cpu.a.toNat + m.toNat + s.cpu.c.toNat > 0xff then 1 else 0) =
      (decide (256 ≤ s.cpu.a.toNat + m.toNat + s.cpu.c.toNat)).toNat := ite_toNat _
  have hr := and_ff (s.cpu.a.toNat + m.toNat + s.cpu.c.toNat)
  have hv := overflow_eq s.cpu.a.toNat m.toNat ((s.cpu.a.toNat + m.toNat + s.cpu.c.toNat) &&& 0xff)
  have hsigns := congrArg Bool.toNat (overflows_eq s.cpu.a m s.cpu.c)
  rw [← hr] at hsigns
  have hflag : ∀ {s : State σ} {n : Nat} {flag : Bool}, n = flag.toNat →
      (modify fun self : Mos6502 σ => { self with v := n } : Method σ Unit).run (ofState s k) =
        .ok ((), ofState { s with cpu := { s.cpu with v := flag } } k) := by
    rintro s _ flag rfl
    rfl
  exact bind_run rfl (bind_run (setC_run hc) (bind_run (hflag (hv.trans hsigns)) (loadA_run hr)))

/-- A difference is a sum with the operand inverted: a borrow is a carry that is missing. -/
theorem sbc_eq (r : Cpu) (m : BitVec 8) : r.sbc m = r.adc (~~~m) := by
  have hm := m.isLt
  have hnot : (~~~m).toNat = 255 - m.toNat := BitVec.toNat_not
  have hborrow : (!r.c).toNat + r.c.toNat = 1 := by
    cases r.c <;> rfl
  have hsigned : (~~~m).toInt = -m.toInt - 1 := by
    have := toInt_cases m
    have := toInt_cases (~~~m)
    omega
  have hvalue : BitVec.ofInt 8 ((r.a.toNat : Int) - m.toNat - (!r.c).toNat) =
      BitVec.ofNat 8 (r.a.toNat + (~~~m).toNat + r.c.toNat) := by
    apply BitVec.eq_of_toNat_eq
    rw [BitVec.toNat_ofInt, BitVec.toNat_ofNat]
    omega
  have hcarry : decide ((0 : Int) ≤ (r.a.toNat : Int) - m.toNat - (!r.c).toNat) =
      decide (256 ≤ r.a.toNat + (~~~m).toNat + r.c.toNat) :=
    decide_eq_decide.mpr (by omega)
  have hoverflow : r.a.toInt - m.toInt - (!r.c).toNat = r.a.toInt + (~~~m).toInt + r.c.toNat := by
    omega
  rw [Cpu.sbc, Cpu.adc, hvalue, hcarry, hoverflow]

/-! ## Operations with an operand -/

section Operand

variable {mode : Mode} {m : BitVec 8}
  (h : (operand io mode).run (ofState s k) = .ok (m.toNat, ofState s' k'))
  (hregs : s'.cpu = { s.cpu with pc := s'.cpu.pc })

include h

theorem opLDA_run : (opLDA io mode).run (ofState s k) =
    .ok ((), ofState { s' with cpu := s'.cpu.loadA m } k') :=
  bind_run h (loadA_run rfl)

theorem opLDX_run : (opLDX io mode).run (ofState s k) =
    .ok ((), ofState { s' with cpu := s'.cpu.loadX m } k') :=
  bind_run h (loadX_run rfl)

theorem opLDY_run : (opLDY io mode).run (ofState s k) =
    .ok ((), ofState { s' with cpu := s'.cpu.loadY m } k') :=
  bind_run h (loadY_run rfl)

theorem opADC_run (hd : s.cpu.d = false) : (opADC io mode).run (ofState s k) =
    .ok ((), ofState { s' with cpu := s'.cpu.adc m } k') := by
  have hbinary : ¬ (ofState s k).d ≠ 0 := by
    change ¬ s.cpu.d.toNat ≠ 0
    rw [hd]
    decide
  refine bind_run rfl ?_
  rw [if_neg hbinary]
  exact bind_run h (addOperand_run m)

theorem opSBC_run (hd : s.cpu.d = false) : (opSBC io mode).run (ofState s k) =
    .ok ((), ofState { s' with cpu := s'.cpu.sbc m } k') := by
  have hbinary : ¬ (ofState s k).d ≠ 0 := by
    change ¬ s.cpu.d.toNat ≠ 0
    rw [hd]
    decide
  have hnot : m.toNat ^^^ 0xff = (~~~m).toNat := by
    rw [BitVec.not_def, BitVec.toNat_xor, Nat.xor_comm]
    rfl
  refine bind_run rfl ?_
  rw [if_neg hbinary, sbc_eq]
  refine bind_run h ?_
  rw [hnot]
  exact addOperand_run (~~~m)

theorem opBIT_run : (opBIT io mode).run (ofState s k) =
    .ok ((), ofState { s' with cpu := s'.cpu.bit m } k') := by
  have hz : (if s'.cpu.a.toNat &&& m.toNat = 0 then 1 else 0) =
      (decide (s'.cpu.a &&& m = 0)).toNat := by
    rw [ite_toNat, ← BitVec.toNat_and]
    exact congrArg Bool.toNat (decide_eq_decide.mpr (BitVec.toNat_inj (y := 0)))
  have hn : (if m.toNat &&& 0x80 ≠ 0 then 1 else 0) = (m.getLsbD 7).toNat := ite_and_ne_zero m.toNat 7
  have hv : (if m.toNat &&& 0x40 ≠ 0 then 1 else 0) = (m.getLsbD 6).toNat := ite_and_ne_zero m.toNat 6
  refine bind_run h ?_
  simp only [ofState, Cpu.bit, ← hz, ← hn, ← hv]
  rfl

include hregs

theorem opAND_run : (opAND io mode).run (ofState s k) =
    .ok ((), ofState { s' with cpu := s'.cpu.loadA (s'.cpu.a &&& m) } k') := by
  refine bind_run rfl (bind_run h (loadA_run ?_))
  rw [BitVec.toNat_and, congrArg Cpu.a hregs]
  rfl

theorem opORA_run : (opORA io mode).run (ofState s k) =
    .ok ((), ofState { s' with cpu := s'.cpu.loadA (s'.cpu.a ||| m) } k') := by
  refine bind_run rfl (bind_run h (loadA_run ?_))
  rw [BitVec.toNat_or, congrArg Cpu.a hregs]
  rfl

theorem opEOR_run : (opEOR io mode).run (ofState s k) =
    .ok ((), ofState { s' with cpu := s'.cpu.loadA (s'.cpu.a ^^^ m) } k') := by
  refine bind_run rfl (bind_run h (loadA_run ?_))
  rw [BitVec.toNat_xor, congrArg Cpu.a hregs]
  rfl

omit hregs in
/-- `_cmp`, with a register that the operand leaves alone. -/
theorem cmp_run {reg : Nat} (register : Cpu → BitVec 8) (hreg : reg = (register s'.cpu).toNat) :
    (cmp io reg mode).run (ofState s k) =
      .ok ((), ofState { s' with cpu := Cpu.compare register s'.cpu m } k') := by
  subst hreg
  have hc : (if (register s'.cpu).toNat ≥ m.toNat then 1 else 0) =
      (decide (m ≤ register s'.cpu)).toNat := ite_toNat _
  exact bind_run h (bind_run (setC_run hc) (bind_run (setzn_run (lowByte_sub _ _)) rfl))

theorem opCMP_run : (opCMP io mode).run (ofState s k) =
    .ok ((), ofState { s' with cpu := Cpu.compare Cpu.a s'.cpu m } k') :=
  bind_run rfl (cmp_run h Cpu.a (congrArg (fun c : Cpu => c.a.toNat) hregs).symm)

theorem opCPX_run : (opCPX io mode).run (ofState s k) =
    .ok ((), ofState { s' with cpu := Cpu.compare Cpu.x s'.cpu m } k') :=
  bind_run rfl (cmp_run h Cpu.x (congrArg (fun c : Cpu => c.x.toNat) hregs).symm)

theorem opCPY_run : (opCPY io mode).run (ofState s k) =
    .ok ((), ofState { s' with cpu := Cpu.compare Cpu.y s'.cpu m } k') :=
  bind_run rfl (cmp_run h Cpu.y (congrArg (fun c : Cpu => c.y.toNat) hregs).symm)

omit h hregs

/-- All of them. -/
theorem operand_run {op : Op} {f : Cpu → BitVec 8 → Cpu} (hop : op.action = .operand f)
    (h : (operand io mode).run (ofState s k) = .ok (m.toNat, ofState s' k'))
    (hregs : s'.cpu = { s.cpu with pc := s'.cpu.pc })
    (hbinary : op = .adc ∨ op = .sbc → s.cpu.d = false) :
    (ops io mode op).run (ofState s k) = .ok ((), ofState { s' with cpu := f s'.cpu m } k') := by
  cases op with
  | adc =>
    cases hop
    exact opADC_run h (hbinary (.inl rfl))
  | sbc =>
    cases hop
    exact opSBC_run h (hbinary (.inr rfl))
  | and =>
    cases hop
    exact opAND_run h hregs
  | ora =>
    cases hop
    exact opORA_run h hregs
  | eor =>
    cases hop
    exact opEOR_run h hregs
  | cmp =>
    cases hop
    exact opCMP_run h hregs
  | cpx =>
    cases hop
    exact opCPX_run h hregs
  | cpy =>
    cases hop
    exact opCPY_run h hregs
  | bit =>
    cases hop
    exact opBIT_run h
  | lda =>
    cases hop
    exact opLDA_run h
  | ldx =>
    cases hop
    exact opLDX_run h
  | ldy =>
    cases hop
    exact opLDY_run h
  | _ => cases hop

end Operand

/-! ## Operations on memory and the accumulator -/

/-- The nine bits that `rol` turns. -/
theorem rol_spec (m : BitVec 8) (c : Bool) :
    (if m.toNat <<< 1 ||| c.toNat > 0xff then 1 else 0) = m.msb.toNat ∧
      (m.toNat <<< 1 ||| c.toNat) &&& 0xff = ((m ++ BitVec.ofBool c).extractLsb' 0 8).toNat := by
  have hm := m.isLt
  have hc := Bool.toNat_lt c
  have hword : m.toNat <<< 1 ||| c.toNat = (m ++ BitVec.ofBool c).toNat := by
    rw [BitVec.toNat_append, BitVec.toNat_ofBool]
  constructor
  · rw [ite_toNat, BitVec.msb_eq_decide, ← Nat.shiftLeft_add_eq_or_of_lt hc, Nat.shiftLeft_eq]
    exact congrArg Bool.toNat (decide_eq_decide.mpr (by omega))
  · rw [hword, and_ff]
    rfl

/-- Those that `ror` turns. -/
theorem ror_spec (m : BitVec 8) (c : Bool) :
    (m.toNat ||| c.toNat <<< 8) &&& 1 = (m.getLsbD 0).toNat ∧
      (m.toNat ||| c.toNat <<< 8) >>> 1 = ((BitVec.ofBool c ++ m).extractLsb' 1 8).toNat := by
  have hm := m.isLt
  have hc := Bool.toNat_lt c
  have hword : m.toNat ||| c.toNat <<< 8 = (BitVec.ofBool c ++ m).toNat := by
    rw [BitVec.toNat_append, BitVec.toNat_ofBool, Nat.or_comm]
  have hlt := (BitVec.ofBool c ++ m).isLt
  constructor
  · have hbit : m.getLsbD 0 = decide (m.toNat % 2 = 1) := Nat.testBit_zero m.toNat
    rw [Nat.or_comm, ← Nat.shiftLeft_add_eq_or_of_lt hm, Nat.shiftLeft_eq, Nat.and_one_is_mod, hbit,
      ← ite_toNat]
    split <;> omega
  · rw [hword, BitVec.extractLsb'_toNat, Nat.shiftRight_eq_div_pow]
    omega

theorem asl_spec (m : BitVec 8) :
    (if m.toNat &&& 0x80 ≠ 0 then 1 else 0) = m.msb.toNat ∧
      (m.toNat <<< 1) &&& 0xff = (m <<< 1).toNat := by
  constructor
  · rw [← testBit_seven]
    exact ite_and_ne_zero m.toNat 7
  · rw [and_ff]
    rfl

theorem lsr_spec (m : BitVec 8) :
    m.toNat &&& 1 = (m.getLsbD 0).toNat ∧ m.toNat >>> 1 = (m >>> 1).toNat := by
  have hbit : m.getLsbD 0 = decide (m.toNat % 2 = 1) := Nat.testBit_zero m.toNat
  constructor
  · rw [Nat.and_one_is_mod, hbit, ← ite_toNat]
    split <;> omega
  · rfl

/-- A shift of the accumulator: the carry, then the value. -/
theorem shiftA_run {w n : Nat} {v : BitVec 8} {carry : Bool} (hc : w = carry.toNat)
    (hv : n = v.toNat) :
    (do setC w; setA (← setzn n)).run (ofState s k) =
      .ok ((), ofState { s with cpu := { (s.cpu.shifted v carry).2 with a := v } } k) :=
  bind_run (setC_run hc) (bind_run (setzn_run hv) (setA_run rfl))

/-- A shift of memory. -/
theorem shift_run {addr : BitVec 16} {w n : Nat} {v : BitVec 8} {carry : Bool} (hc : w = carry.toNat)
    (hv : n = v.toNat) :
    (do setC w; wr io addr.toNat (← setzn n)).run (ofState s k) =
      .ok ((), ofState (({ s with cpu := (s.cpu.shifted v carry).2 } : State σ).write (devices io k)
        addr v) k) :=
  bind_run (setC_run hc) (bind_run (setzn_run hv) (wr_run io rfl rfl))

theorem modifyA_run {op : Op} {f : Cpu → BitVec 8 → BitVec 8 × Cpu} (hop : op.action = .modify f)
    (htakes : op.takes .acc = true) :
    (ops io .acc op).run (ofState s k) =
      .ok ((), ofState { s with
        cpu := { (f s.cpu s.cpu.a).2 with a := (f s.cpu s.cpu.a).1 } } k) := by
  cases op with
  | asl =>
    cases hop
    exact bind_run rfl (shiftA_run (asl_spec s.cpu.a).1 (asl_spec s.cpu.a).2)
  | lsr =>
    cases hop
    exact bind_run rfl (shiftA_run (lsr_spec s.cpu.a).1 (lsr_spec s.cpu.a).2)
  | rol =>
    cases hop
    exact bind_run rfl (shiftA_run (rol_spec s.cpu.a s.cpu.c).1 (rol_spec s.cpu.a s.cpu.c).2)
  | ror =>
    cases hop
    exact bind_run rfl (shiftA_run (ror_spec s.cpu.a s.cpu.c).1 (ror_spec s.cpu.a s.cpu.c).2)
  | inc | dec => exact absurd htakes (by decide)
  | _ => cases hop

theorem modify_run {op : Op} {f : Cpu → BitVec 8 → BitVec 8 × Cpu} (hop : op.action = .modify f)
    {mode : Mode} (hmode : mode ≠ .acc) {ea : BitVec 16}
    (haddr : (addr io mode false).run (ofState s k) = .ok (ea.toNat, ofState s' k')) :
    let m := s'.read (devices io k') ea
    (ops io mode op).run (ofState s k) =
      .ok ((), ofState (({ m.2 with cpu := (f m.2.cpu m.1).2 } : State σ).write (devices io k') ea
        (f m.2.cpu m.1).1) k') := by
  intro m
  cases op with
  | asl =>
    cases hop
    refine bind_run rfl ?_
    rw [if_neg hmode]
    exact bind_run haddr (bind_run (rd_run io rfl) (shift_run (asl_spec m.1).1 (asl_spec m.1).2))
  | lsr =>
    cases hop
    refine bind_run rfl ?_
    rw [if_neg hmode]
    exact bind_run haddr (bind_run (rd_run io rfl) (shift_run (lsr_spec m.1).1 (lsr_spec m.1).2))
  | rol =>
    cases hop
    refine bind_run rfl ?_
    rw [if_neg hmode]
    refine bind_run haddr (bind_run (rd_run io rfl) (bind_run rfl ?_))
    exact shift_run (rol_spec m.1 m.2.cpu.c).1 (rol_spec m.1 m.2.cpu.c).2
  | ror =>
    cases hop
    refine bind_run rfl ?_
    rw [if_neg hmode]
    refine bind_run haddr (bind_run (rd_run io rfl) (bind_run rfl ?_))
    exact shift_run (ror_spec m.1 m.2.cpu.c).1 (ror_spec m.1 m.2.cpu.c).2
  | inc =>
    cases hop
    refine bind_run haddr (bind_run (rd_run io rfl) ?_)
    exact bind_run (setzn_run (zeroPage_add m.1 1)) (wr_run io rfl rfl)
  | dec =>
    cases hop
    refine bind_run haddr (bind_run (rd_run io rfl) ?_)
    exact bind_run (setzn_run (lowByte_pred m.1)) (wr_run io rfl rfl)
  | _ => cases hop

theorem store_run {op : Op} {f : Cpu → BitVec 8} (hop : op.action = .store f) {mode : Mode}
    {ea : BitVec 16}
    (haddr : (addr io mode false).run (ofState s k) = .ok (ea.toNat, ofState s' k')) :
    (ops io mode op).run (ofState s k) =
      .ok ((), ofState (s'.write (devices io k') ea (f s'.cpu)) k') := by
  cases op with
  | sta =>
    cases hop
    exact bind_run haddr (bind_run rfl (wr_run io rfl rfl))
  | stx =>
    cases hop
    exact bind_run haddr (bind_run rfl (wr_run io rfl rfl))
  | sty =>
    cases hop
    exact bind_run haddr (bind_run rfl (wr_run io rfl rfl))
  | _ => cases hop


/-! ## Registers alone -/

theorem register_run {op : Op} {f : Cpu → Cpu} (hop : op.action = .register f) (hsed : op ≠ .sed)
    (mode : Mode) :
    (ops io mode op).run (ofState s k) = .ok ((), ofState { s with cpu := f s.cpu } k) := by
  cases op with
  | inx =>
    cases hop
    exact bind_run rfl (loadX_run (zeroPage_add s.cpu.x 1))
  | iny =>
    cases hop
    exact bind_run rfl (loadY_run (zeroPage_add s.cpu.y 1))
  | dex =>
    cases hop
    exact bind_run rfl (loadX_run (lowByte_pred s.cpu.x))
  | dey =>
    cases hop
    exact bind_run rfl (loadY_run (lowByte_pred s.cpu.y))
  | tax | tsx =>
    cases hop
    exact bind_run rfl (loadX_run rfl)
  | tay =>
    cases hop
    exact bind_run rfl (loadY_run rfl)
  | txa | tya =>
    cases hop
    exact bind_run rfl (loadA_run rfl)
  | txs | clc | sec | cli | sei | clv | cld | nop =>
    cases hop
    rfl
  | sed => exact absurd rfl hsed
  | _ => cases hop

/-! ## Branches -/

/-- A byte whose upper bit is set is negative. -/
theorem signed_eq (v : BitVec 8) :
    (if v.toNat &&& 0x80 ≠ 0 then (v.toNat : Int) - 0x100 else v.toNat) = v.toInt := by
  have hbit : (if v.toNat &&& 0x80 ≠ 0 then 1 else 0) = (decide (128 ≤ v.toNat)).toNat :=
    (ite_and_ne_zero v.toNat 7).trans (congrArg Bool.toNat (testBit_seven_eq v))
  rcases toInt_cases v with ⟨hv, hint⟩ | ⟨hv, hint⟩
  · rw [decide_eq_false (Nat.not_le.mpr hv)] at hbit
    have hclear : ¬ v.toNat &&& 0x80 ≠ 0 := fun hset => by
      rw [if_pos hset] at hbit
      exact absurd hbit (by decide)
    rw [if_neg hclear, hint]
  · rw [decide_eq_true hv] at hbit
    have hset : v.toNat &&& 0x80 ≠ 0 := fun hclear => by
      rw [if_neg (not_not.mpr hclear)] at hbit
      exact absurd hbit (by decide)
    rw [if_pos hset, hint]

/-- A branch goes as far as its signed offset. -/
theorem lowWord_add (pc : BitVec 16) (v : BitVec 8) :
    lowWord ((pc.toNat : Int) + v.toInt) = (pc + v.signExtend 16).toNat := by
  have hpc := pc.isLt
  have hv := v.isLt
  rw [lowWord, BitVec.toNat_add, BitVec.toNat_signExtend, BitVec.toNat_setWidth, BitVec.msb_eq_decide]
  rcases toInt_cases v with ⟨hlt, hint⟩ | ⟨hge, hint⟩
  · rw [hint, if_neg (by simpa using hlt)]
    omega
  · rw [hint, if_pos (by simpa using hge)]
    omega

theorem branch_run (taken : Bool) (hpc : s.cpu.pc.toNat ≤ 0xfffc) :
    ∃ cycles, (branch taken).run (ofState (s.setPc (s.cpu.pc + 1)) k) =
      .ok ((), ofState
        (if taken then (s.next .rel).setPc ((s.next .rel).cpu.pc + s.lowByte.signExtend 16)
          else s.next .rel) { k with cycles := cycles }) := by
  obtain ⟨-, htwo, -⟩ := operand_pc s hpc
  have hbehind : (modify fun self : Mos6502 σ => { self with pc := (self.pc + 1) &&& 0xffff }
      : Method σ Unit).run (ofState (s.setPc (s.cpu.pc + 1)) k) = .ok ((), ofState (s.next .rel) k) :=
    congrArg (fun pc => Except.ok ((), ({ ofState s k with pc := pc } : Mos6502 σ))) htwo
  cases taken with
  | false => exact ⟨k.cycles, bind_run rfl (bind_run (getMem_run rfl) (bind_run hbehind rfl))⟩
  | true =>
    have htarget : lowWord (((s.next .rel).cpu.pc.toNat : Int) +
        if s.lowByte.toNat &&& 0x80 ≠ 0 then (s.lowByte.toNat : Int) - 0x100 else s.lowByte.toNat) =
        ((s.next .rel).cpu.pc + s.lowByte.signExtend 16).toNat := by
      rw [signed_eq, lowWord_add]
    have hjump : ∀ {s : State σ} {cycles pc : Nat} {dst : BitVec 16}, pc = dst.toNat →
        (Except.ok ((), { ofState s k with cycles := cycles, pc := pc }) :
          Except Fault (Unit × Mos6502 σ)) =
            .ok ((), ofState (s.setPc dst) { k with cycles := cycles }) := by
      rintro s cycles _ dst rfl
      rfl
    exact ⟨_, bind_run rfl (bind_run (getMem_run rfl) (bind_run hbehind (hjump htarget)))⟩

/-- Which branches are taken. -/
theorem branch_eq {op : Op} {f : Cpu → Bool} (hop : op.action = .branch f) (mode : Mode) :
    (ops io mode op).run (ofState s k) = (branch (f s.cpu)).run (ofState s k) := by
  have hset : ∀ flag : Bool, decide (flag.toNat ≠ 0) = flag := by decide
  have hclear : ∀ flag : Bool, decide (flag.toNat = 0) = !flag := by decide
  cases op with
  | bcc =>
    cases hop
    exact congrArg (fun taken => (branch taken).run (ofState s k)) (hclear s.cpu.c)
  | bcs =>
    cases hop
    exact congrArg (fun taken => (branch taken).run (ofState s k)) (hset s.cpu.c)
  | bne =>
    cases hop
    exact congrArg (fun taken => (branch taken).run (ofState s k)) (hclear s.cpu.z)
  | beq =>
    cases hop
    exact congrArg (fun taken => (branch taken).run (ofState s k)) (hset s.cpu.z)
  | bpl =>
    cases hop
    exact congrArg (fun taken => (branch taken).run (ofState s k)) (hclear s.cpu.n)
  | bmi =>
    cases hop
    exact congrArg (fun taken => (branch taken).run (ofState s k)) (hset s.cpu.n)
  | bvc =>
    cases hop
    exact congrArg (fun taken => (branch taken).run (ofState s k)) (hclear s.cpu.v)
  | bvs =>
    cases hop
    exact congrArg (fun taken => (branch taken).run (ofState s k)) (hset s.cpu.v)
  | _ => cases hop

/-! ## The stack -/

/-- The status byte that `php` pushes. -/
theorem p_eq (s : State σ) (k : Rest) : ((ofState s k).p ||| 0x10) &&& 0xff = s.cpu.status.toNat := by
  have hbits : ∀ n v d i z c : Bool,
      ((pyAnd n.toNat 0x80 ||| pyAnd v.toNat 0x40 ||| 0x20 ||| pyAnd d.toNat 0x08 |||
        pyAnd i.toNat 0x04 ||| pyAnd z.toNat 0x02 ||| pyAnd c.toNat 0x01) ||| 0x10) &&& 0xff =
        (BitVec.ofBoolListBE [n, v, true, true, d, i, z, c]).toNat := by
    decide
  exact hbits s.cpu.n s.cpu.v s.cpu.d s.cpu.i s.cpu.z s.cpu.c

theorem setP_run {n : Nat} {v : BitVec 8} (h : n = v.toNat) :
    (setP n).run (ofState s k) = .ok ((), ofState { s with cpu := s.cpu.setStatus v } k) := by
  subst h
  have hbit : ∀ i, (if v.toNat &&& 2 ^ i ≠ 0 then 1 else 0) = (v.getLsbD i).toNat := fun i =>
    ite_and_ne_zero v.toNat i
  have hn := hbit 7
  have hv := hbit 6
  have hd := hbit 3
  have hi := hbit 2
  have hz := hbit 1
  have hc := (lsr_spec v).1
  simp only [ofState, Cpu.setStatus, ← hn, ← hv, ← hd, ← hi, ← hz, ← hc]
  rfl

theorem push_class {op : Op} {f : Cpu → BitVec 8} (hop : op.action = .push f) (mode : Mode) :
    (ops io mode op).run (ofState s k) = .ok ((), ofState (s.push (f s.cpu)) k) := by
  cases op with
  | pha =>
    cases hop
    exact bind_run rfl (push_run (byte_and_ff s.cpu.a))
  | php =>
    cases hop
    exact bind_run rfl (push_run (p_eq s k))
  | _ => cases hop

theorem pull_class {op : Op} {f : Cpu → BitVec 8 → Cpu} (hop : op.action = .pull f) (mode : Mode) :
    (ops io mode op).run (ofState s k) =
      .ok ((), ofState { s.pull.2 with cpu := f s.pull.2.cpu s.pull.1 } k) := by
  cases op with
  | pla =>
    cases hop
    exact bind_run pop_run (loadA_run rfl)
  | plp =>
    cases hop
    exact bind_run pop_run (setP_run rfl)
  | _ => cases hop

/-! ## Jumps -/

/-- The halves of an address. -/
theorem halves_eq (w : BitVec 16) :
    ((w.toNat >>> 8) &&& 0xff) &&& 0xff = (w.extractLsb' 8 8).toNat ∧
      (w.toNat &&& 0xff) &&& 0xff = (w.setWidth 8).toNat := by
  have hhigh : (w.toNat >>> 8) &&& 0xff = (w.extractLsb' 8 8).toNat := by
    rw [and_ff]
    rfl
  have hlow : w.toNat &&& 0xff = (w.setWidth 8).toNat := by
    rw [and_ff]
    rfl
  rw [hhigh, hlow]
  exact ⟨byte_and_ff _, byte_and_ff _⟩

theorem opJSR_run (io : Io σ) (hpc : s.cpu.pc.toNat ≤ 0xfffc) :
    ∃ cycles, (opJSR io).run (ofState (s.setPc (s.cpu.pc + 1)) k) =
      .ok ((), ofState (((s.next .abs).pushAddress ((s.next .abs).cpu.pc - 1)).setPc
        (s.effective .abs)) { k with cycles := cycles }) := by
  obtain ⟨cycles, haddr⟩ := addr_run io (k := k) false (rfl : Mode.abs.inMemory = true) hpc
  have hret : lowWord (((s.next .abs).cpu.pc.toNat : Int) - 1) = ((s.next .abs).cpu.pc - 1).toNat := by
    have hlt := (s.next .abs).cpu.pc.isLt
    have hone : (1 : BitVec 16).toNat = 1 := rfl
    rw [lowWord, BitVec.toNat_sub, hone]
    omega
  have hpush := halves_eq ((s.next .abs).cpu.pc - 1)
  rw [← hret] at hpush
  exact ⟨cycles, bind_run haddr (bind_run rfl (bind_run (push_run hpush.1)
    (bind_run (push_run hpush.2) (setPc_run rfl))))⟩

theorem opRTS_run :
    (opRTS : Method σ Unit).run (ofState s k) =
      .ok ((), ofState (s.pullAddress.2.setPc (s.pullAddress.1 + 1)) k) := by
  have hpc : ((s.pull.1.toNat ||| s.pull.2.pull.1.toNat <<< 8) + 1) &&& 0xffff =
      (s.pullAddress.1 + 1).toNat := by
    rw [and_ffff, word_eq]
    rfl
  exact bind_run pop_run (bind_run pop_run (setPc_run hpc))

theorem opRTI_run :
    let r := ({ s.pull.2 with cpu := s.pull.2.cpu.setStatus s.pull.1 } : State σ).pullAddress
    (opRTI : Method σ Unit).run (ofState s k) = .ok ((), ofState (r.2.setPc r.1) k) := by
  intro r
  refine bind_run pop_run (bind_run (setP_run rfl) (bind_run pop_run (bind_run pop_run ?_)))
  exact setPc_run (word_eq _ _)

/-- The byte after the pointer, in its page. -/
theorem inPage_eq (w : BitVec 16) :
    (w.toNat &&& 0xff00) ||| ((w.toNat + 1) &&& 0xff) = (State.inPage w).toNat := by
  have hlow : (w.toNat + 1) &&& 0xff = (w.setWidth 8 + 1).toNat := by
    have hone : (1 : BitVec 8).toNat = 1 := rfl
    rw [and_ff, BitVec.toNat_add, BitVec.toNat_setWidth, BitVec.toNat_ofNat, hone]
    omega
  have hhigh : w.toNat &&& 0xff00 = (w.extractLsb' 8 8).toNat <<< 8 := by
    apply Nat.eq_of_testBit_eq
    intro i
    have hmask : (0xff00 : Nat) = (2 ^ 8 - 1) <<< 8 := by decide
    rw [BitVec.extractLsb'_toNat, hmask, Nat.testBit_and, Nat.testBit_shiftLeft,
      Nat.testBit_two_pow_sub_one, Nat.testBit_shiftLeft, Nat.testBit_mod_two_pow,
      Nat.testBit_shiftRight]
    by_cases hi : 8 ≤ i
    · rw [decide_eq_true hi, Bool.true_and, Bool.true_and, Bool.and_comm, Nat.add_sub_cancel' hi]
    · rw [decide_eq_false hi, Bool.false_and, Bool.and_false, Bool.false_and]
  rw [hhigh, hlow]
  rfl

/-- The pointer of an indirect jump is read over the bus. -/
theorem addr_ind_run (io : Io σ) (penalise : Bool) (hpc : s.cpu.pc.toNat ≤ 0xfffc) :
    let lo := (s.next .ind).read (devices io k) (s.effective .ind)
    let hi := lo.2.read (devices io k) (State.inPage (s.effective .ind))
    (addr io .ind penalise).run (ofState (s.setPc (s.cpu.pc + 1)) k) =
      .ok ((hi.1 ++ lo.1).toNat, ofState hi.2 k) := by
  intro lo hi
  obtain ⟨hlt, -, hthree⟩ := operand_pc s hpc
  refine bind_run rfl (bind_run (setPc_run hthree) (bind_run (getWord_run hlt) ?_))
  refine bind_run (rd_run io rfl) (bind_run (rd_run io (inPage_eq _)) ?_)
  exact congrArg (fun v => (Except.ok (v, ofState hi.2 k) : Except Fault (Nat × Mos6502 σ)))
    (word_eq lo.1 hi.1)

/-! ## One step -/

/-- The interpreter refuses nothing else. -/
def Supported (s : State σ) (op : Op) : Prop :=
  op ≠ .brk ∧ op ≠ .sed ∧ (op = .adc ∨ op = .sbc → s.cpu.d = false)

/-- `_operand`, behind the opcode. -/
theorem operand_effective (io : Io σ) {mode : Mode} (hmode : mode = .imm ∨ mode.inMemory = true)
    (hpc : s.cpu.pc.toNat ≤ 0xfffc)
    (hout : mode = .imm → (devices io k).window (s.cpu.pc + 1) = false) :
    ∃ cycles,
      let r := if mode = .imm then (s.lowByte, s.next mode)
        else (s.next mode).read (devices io { k with cycles := cycles }) (s.effective mode)
      (operand io mode).run (ofState (s.setPc (s.cpu.pc + 1)) k) =
          .ok (r.1.toNat, ofState r.2 { k with cycles := cycles }) ∧
        r.2.cpu = (s.next mode).cpu := by
  by_cases himm : mode = .imm
  · subst himm
    obtain ⟨-, htwo, -⟩ := operand_pc s hpc
    have hread : (rd io (s.cpu.pc + 1).toNat).run (ofState (s.next .imm) k) = _ := rd_run io rfl
    rw [State.read_of_memory _ (hout rfl)] at hread
    exact ⟨k.cycles, bind_run (bind_run rfl (bind_run (setPc_run htwo) rfl)) hread, rfl⟩
  · obtain ⟨cycles, haddr⟩ := addr_run io (k := k) true (hmode.resolve_left himm) hpc
    refine ⟨cycles, ?_⟩
    rw [if_neg himm]
    exact ⟨bind_run haddr (rd_run io rfl), State.read_cpu _ _ _⟩

/-- Every operation that is supported does what its instruction does. -/
theorem ops_run (io : Io σ) {op : Op} {mode : Mode} (htakes : op.takes mode = true) (hop : Supported s op)
    (hpc : s.cpu.pc.toNat ≤ 0xfffc)
    (hout : mode = .imm → (devices io k).window (s.cpu.pc + 1) = false) :
    ∃ cycles, (ops io mode op).run (ofState (s.setPc (s.cpu.pc + 1)) k) =
      .ok ((), ofState (s.exec (devices io { k with cycles := cycles }) op mode)
        { k with cycles := cycles }) := by
  obtain ⟨hbrk, hsed, hbinary⟩ := hop
  rw [Op.takes] at htakes
  simp only [State.exec]
  cases haction : op.action with
  | operand f =>
    rw [haction] at htakes
    obtain ⟨cycles, hrun, hcpu⟩ := operand_effective io (k := k) (of_decide_eq_true htakes) hpc
      hout
    refine ⟨cycles, ?_⟩
    generalize (if mode = .imm then (s.lowByte, s.next mode) else _) = r at *
    exact operand_run haction hrun (by rw [hcpu]; rfl) hbinary
  | store f =>
    rw [haction] at htakes
    obtain ⟨cycles, haddr⟩ := addr_run io (k := k) false htakes hpc
    exact ⟨cycles, store_run haction haddr⟩
  | modify f =>
    rw [haction] at htakes
    dsimp only
    by_cases hacc : mode = .acc
    · subst hacc
      refine ⟨k.cycles, ?_⟩
      rw [if_pos rfl]
      exact modifyA_run haction (by rw [Op.takes, haction]; exact htakes)
    · have hmem : mode.inMemory = true :=
        (of_decide_eq_true htakes).resolve_right fun h => hacc h.1
      obtain ⟨cycles, haddr⟩ := addr_run io (k := k) false hmem hpc
      refine ⟨cycles, ?_⟩
      rw [if_neg hacc]
      exact modify_run haction hacc haddr
  | register f =>
    rw [haction] at htakes
    obtain rfl : mode = .imp := of_decide_eq_true htakes
    exact ⟨k.cycles, register_run haction hsed _⟩
  | branch f =>
    rw [haction] at htakes
    obtain rfl : mode = .rel := of_decide_eq_true htakes
    obtain ⟨cycles, hrun⟩ := branch_run (k := k) (f s.cpu) hpc
    refine ⟨cycles, (branch_eq haction _).trans ?_⟩
    have htaken : f (s.setPc (s.cpu.pc + 1)).cpu = f s.cpu := Op.branch_pc haction _ _
    rw [htaken]
    exact hrun
  | push f =>
    rw [haction] at htakes
    obtain rfl : mode = .imp := of_decide_eq_true htakes
    exact ⟨k.cycles, push_class haction _⟩
  | pull f =>
    rw [haction] at htakes
    obtain rfl : mode = .imp := of_decide_eq_true htakes
    exact ⟨k.cycles, pull_class haction _⟩
  | jump =>
    rw [haction] at htakes
    obtain rfl : op = .jmp := by
      cases op with
      | jmp => rfl
      | _ => cases haction
    rcases of_decide_eq_true htakes with rfl | rfl
    · obtain ⟨cycles, haddr⟩ := addr_run io (k := k) false (rfl : Mode.abs.inMemory = true) hpc
      exact ⟨cycles, bind_run haddr (setPc_run rfl)⟩
    · exact ⟨k.cycles, bind_run (addr_ind_run io false hpc) (setPc_run rfl)⟩
  | call =>
    rw [haction] at htakes
    obtain rfl : op = .jsr := by
      cases op with
      | jsr => rfl
      | _ => cases haction
    obtain rfl : mode = .abs := of_decide_eq_true htakes
    exact opJSR_run io hpc
  | ret =>
    rw [haction] at htakes
    obtain rfl : op = .rts := by
      cases op with
      | rts => rfl
      | _ => cases haction
    obtain rfl : mode = .imp := of_decide_eq_true htakes
    exact ⟨k.cycles, opRTS_run⟩
  | interruptRet =>
    rw [haction] at htakes
    obtain rfl : op = .rti := by
      cases op with
      | rti => rfl
      | _ => cases haction
    obtain rfl : mode = .imp := of_decide_eq_true htakes
    exact ⟨k.cycles, opRTI_run⟩
  | interrupt =>
    refine absurd ?_ hbrk
    cases op with
    | brk => rfl
    | _ => cases haction

/-- `_TABLE` is the documented table. -/
theorem opcodeTable_decode {opcode : Nat} (hbyte : opcode < 0x100) :
    (opcodeTable.lookup opcode).map (fun e => (e.1, e.2.1)) = Nmos6502.decode opcode := by
  have hall : ∀ opcode < 0x100,
      (opcodeTable.lookup opcode).map (fun e => (e.1, e.2.1)) = Nmos6502.decode opcode := by
    decide +kernel
  exact hall opcode hbyte

/-- The opcode, as `step` reads it. -/
theorem step_eq (io : Io σ) {opcode : Nat} (hopcode : (s.mem s.cpu.pc).toNat = opcode)
    (hout : ¬ (ofState s k).InIo s.cpu.pc.toNat) :
    (step io).run (ofState s k) =
      (match opcodeTable.lookup opcode with
        | none => .error (.unknownOpcode opcode s.cpu.pc.toNat)
        | some (name, mode, cyc) => (ops io mode name).run
            (ofState (s.setPc (s.cpu.pc + 1))
              { k with cycles := k.cycles + cyc, instructions := k.instructions + 1 })) := by
  have hplain : ((ofState s k).pc : Int) < (ofState s k).ioLo ∨
      ((ofState s k).pc : Int) ≥ (ofState s k).ioHi := by
    have hpc : (ofState s k).pc = s.cpu.pc.toNat := rfl
    rw [InIo] at hout
    omega
  have hpc : (s.cpu.pc.toNat + 1) &&& 0xffff = (s.cpu.pc + 1).toNat := by
    rw [and_ffff]
    rfl
  have hfetch : (getMem s.cpu.pc.toNat).run (ofState s k) = .ok (opcode, ofState s k) := by
    rw [← hopcode]
    exact getMem_run rfl
  refine bind_run rfl ?_
  dsimp only
  rw [if_pos hplain]
  refine bind_run hfetch ?_
  cases opcodeTable.lookup opcode with
  | none => rfl
  | some e =>
    obtain ⟨name, mode, cyc⟩ := e
    have hbehind : (modify fun self : Mos6502 σ => { self with
          pc := (s.cpu.pc.toNat + 1) &&& 0xffff
          cycles := self.cycles + cyc
          instructions := self.instructions + 1 } : Method σ Unit).run (ofState s k) =
        .ok ((), ofState (s.setPc (s.cpu.pc + 1))
          { k with cycles := k.cycles + cyc, instructions := k.instructions + 1 }) := by
      rw [hpc]
      rfl
    exact bind_run hbehind rfl

/-- What `step` looks up is the documented instruction. -/
theorem lookup_of_decode {opcode : Nat} {op : Op} {mode : Mode} (hbyte : opcode < 0x100)
    (h : Nmos6502.decode opcode = some (op, mode)) :
    ∃ cyc, opcodeTable.lookup opcode = some (op, mode, cyc) := by
  rw [← opcodeTable_decode hbyte, Option.map_eq_some_iff] at h
  obtain ⟨⟨name, mode', cyc⟩, hlookup, heq⟩ := h
  cases heq
  exact ⟨cyc, hlookup⟩

/-- **The interpreter is faithful.** From every machine in range, with an instruction in memory that is
supported, `step` does what the documented instruction does, its devices see the accesses of that
instruction and no other, and registers and cells stay in range. -/
theorem step_exec (io : Io σ) {m : Mos6502 σ} {op : Op} {mode : Mode} (hm : m.InRange)
    (hpc : m.pc ≤ 0xfffc)
    (hop : Nmos6502.decode (m.mem (BitVec.ofNat 16 m.pc)) = some (op, mode))
    (hout : ∀ i < mode.length, ¬ m.InIo (m.pc + i)) (hsupported : Supported m.view op) :
    ∃ m', (step io).run m = .ok ((), m') ∧ m'.InRange ∧
      m'.view = m.view.exec (devices io m'.rest) op mode ∧
      m'.dev = (m.view.accesses (devices io m'.rest) op mode).foldl (devices io m'.rest).see m.dev ∧
      m'.ioLo = m.ioLo ∧ m'.ioHi = m.ioHi := by
  obtain ⟨s, k, rfl⟩ : ∃ s k, m = ofState s k := ⟨m.view, m.rest, (ofState_view hm).symm⟩
  rw [view_ofState] at hsupported ⊢
  have haddr : BitVec.ofNat 16 (ofState s k).pc = s.cpu.pc := by
    change BitVec.ofNat 16 s.cpu.pc.toNat = _
    rw [BitVec.ofNat_toNat, BitVec.setWidth_eq]
  rw [haddr] at hop
  have hbyte : (s.mem s.cpu.pc).toNat < 0x100 := (s.mem s.cpu.pc).isLt
  obtain ⟨cyc, hlookup⟩ := lookup_of_decode hbyte hop
  have htakes := Nmos6502.decode_takes hbyte hop
  -- the byte of an immediate operand is one of the instruction
  have himm : mode = .imm → (devices io k).window (s.cpu.pc + 1) = false := by
    rintro rfl
    have hnext : (s.cpu.pc + 1).toNat = s.cpu.pc.toNat + 1 :=
      Nat.mod_eq_of_lt (Nat.lt_of_le_of_lt (Nat.succ_le_succ hpc) (by decide))
    have hplain := hout 1 (by decide)
    rw [← Bool.not_eq_true, ← inIo_iff (s := s) io, hnext]
    exact hplain
  have hlength : 0 < mode.length := by cases mode <;> decide
  have hfetch := step_eq io (k := k) rfl (hout 0 hlength)
  rw [hlookup] at hfetch
  obtain ⟨cycles, hrun⟩ := ops_run io
    (k := { k with cycles := k.cycles + cyc, instructions := k.instructions + 1 }) htakes hsupported hpc
    himm
  refine ⟨_, hfetch.trans hrun, ofState_inRange _ _, view_ofState _ _, ?_, rfl, rfl⟩
  exact State.exec_dev _ s op mode

/-- The program counter that an exception names is that of the opcode. -/
theorem lowWord_pred (pc : BitVec 16) : lowWord (((pc + 1).toNat : Int) - 1) = pc.toNat := by
  have hlt := pc.isLt
  have hone : (1 : BitVec 16).toNat = 1 := rfl
  rw [lowWord, BitVec.toNat_add, hone]
  omega

/-- What is not supported is refused: each exception names its opcode. -/
theorem step_refuses (io : Io σ) {m : Mos6502 σ} (hm : m.InRange) (hout : ¬ m.InIo m.pc) :
    (Nmos6502.decode (m.mem (BitVec.ofNat 16 m.pc)) = none →
      (step io).run m = .error (.unknownOpcode (m.mem (BitVec.ofNat 16 m.pc)) m.pc)) ∧
    ∀ op mode, Nmos6502.decode (m.mem (BitVec.ofNat 16 m.pc)) = some (op, mode) →
      (op = .brk → (step io).run m = .error (.unknownOpcode 0 m.pc)) ∧
      (op = .sed → (step io).run m = .error (.sed m.pc)) ∧
      (op = .adc ∨ op = .sbc → m.d ≠ 0 → (step io).run m = .error (.decimalMode op)) := by
  obtain ⟨s, k, rfl⟩ : ∃ s k, m = ofState s k := ⟨m.view, m.rest, (ofState_view hm).symm⟩
  have haddr : BitVec.ofNat 16 (ofState s k).pc = s.cpu.pc := by
    change BitVec.ofNat 16 s.cpu.pc.toNat = _
    rw [BitVec.ofNat_toNat, BitVec.setWidth_eq]
  have hbyte : (s.mem s.cpu.pc).toNat < 0x100 := (s.mem s.cpu.pc).isLt
  have hfetch := step_eq io (k := k) rfl hout
  rw [haddr]
  change (Nmos6502.decode (s.mem s.cpu.pc).toNat = none → _) ∧
    ∀ op mode, Nmos6502.decode (s.mem s.cpu.pc).toNat = some (op, mode) → _
  constructor
  · intro hnone
    rw [← opcodeTable_decode hbyte, Option.map_eq_none_iff] at hnone
    rw [hnone] at hfetch
    exact hfetch
  · intro op mode hop
    obtain ⟨cyc, hlookup⟩ := lookup_of_decode hbyte hop
    rw [hlookup] at hfetch
    refine ⟨?_, ?_, ?_⟩
    · rintro rfl
      exact hfetch.trans (congrArg (fun pc => Except.error (Fault.unknownOpcode 0 pc))
        (lowWord_pred s.cpu.pc))
    · rintro rfl
      exact hfetch.trans (congrArg (fun pc => Except.error (Fault.sed pc)) (lowWord_pred s.cpu.pc))
    · rintro (rfl | rfl) hd
      · refine hfetch.trans (bind_run rfl ?_)
        exact congrArg (fun x => StateT.run x _) (if_pos hd)
      · refine hfetch.trans (bind_run rfl ?_)
        exact congrArg (fun x => StateT.run x _) (if_pos hd)

/-- A device that notes its accesses, and reads as `$81`. -/
def notingIo : Io (List (Nat × Option Nat)) where
  read _ addr log := (log ++ [(addr, none)], 0x181)
  write _ addr value log := log ++ [(addr, some value)]

/-- `rol $dc00,x` across a page, before it runs. -/
def rolState : Mos6502 (List (Nat × Option Nat)) :=
  let mem : BitVec 16 → Nat := fun addr =>
    if addr = 0x1000 then 0x3e else if addr = 0x1001 then 0xff else if addr = 0x1002 then 0xdb else 0
  { init mem [] 0xdc00 0xe000 with
    pc := 0x1000
    x := 1
    c := 1 }

theorem rolState_inRange : rolState.InRange where
  a := by decide
  x := by decide
  y := by decide
  sp := by decide
  pc := by decide
  c := by decide
  z := by decide
  v := by decide
  n := by decide
  i := by decide
  d := by decide
  mem addr := by
    change (if _ then 0x3e else if _ then 0xff else if _ then 0xdb else 0) < 0x100
    split_ifs
    all_goals decide

/-- It reads the device once and writes it once. -/
theorem step_exec_rol :
    ∃ m', (step notingIo).run rolState = .ok ((), m') ∧ m'.InRange ∧
      m'.view = rolState.view.exec (devices notingIo m'.rest) .rol .abx ∧
      m'.dev = (rolState.view.accesses (devices notingIo m'.rest) .rol .abx).foldl
        (devices notingIo m'.rest).see [] ∧ m'.ioLo = 0xdc00 ∧ m'.ioHi = 0xe000 :=
  step_exec notingIo rolState_inRange (by decide) (by decide) (by decide)
    ⟨by decide, by decide, by decide⟩

example : ((step notingIo).run rolState).map (fun r => (r.2.dev, r.2.c, r.2.pc)) =
    .ok ([(0xdc00, none), (0xdc00, some 0x03)], 1, 0x1003) := by decide +kernel

end C64WireGuard.Tools.Mos6502
