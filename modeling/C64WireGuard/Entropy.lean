import C64WireGuard.Scripted
import C64WireGuard.Lib.Feedback

/-!
# What `entropy_fill` makes of the chips

The ephemeral key of an initiation is 32 bytes of `entropy_fill`, its sender index the four after
them. Each byte is `entropy_state`, turned by `rol` and with a read of the sound chip and one of the
timer added to it; together with the carry that is a register of nine bits.

**Theorem (`entropyFill_keeps`).** Nothing is lost: from every state the bytes and the reads go together
one by one, and from two states the same reads never give the same bytes. So uniform reads give a
uniform key, and a seed is not forgotten.

**Theorem (`entropyFill_stuck`).** When the two reads always add up to the same byte, which is what
happens where both follow the clock, the bytes repeat after 18, or after 9 when that byte has an even
number of ones.
-/

namespace C64WireGuard

open Bytes

variable {σ : Type} {n : Nat}

/-! ## Reads and bytes -/

/-- The carry and `entropy_state`. -/
abbrev Whitening := Bool × UInt8

/-- One pass, told what the two reads add up to. -/
def whiten (x : Whitening) (k : UInt8) : Whitening :=
  (decide (0x80 ≤ x.2), ((x.2 <<< 1) ||| if x.1 then 1 else 0) ^^^ k)

/-- What the two reads of each pass add up to, oldest first. -/
def mixes (env : Env σ) : Nat → σ → List UInt8
  | 0, _ => []
  | n + 1, w =>
      let osc3 := env.host.readReg .sidOsc3 w
      let taLo := env.host.readReg .cia1TaLo osc3.1
      (osc3.2 ^^^ taLo.2) :: mixes env n taLo.1

@[simp] theorem length_mixes (env : Env σ) (n : Nat) (w : σ) : (mixes env n w).length = n := by
  induction n generalizing w with
  | zero => rfl
  | succ n ih => simp [mixes, ih]

/-- The states, oldest first. -/
def whitened (x : Whitening) (ks : List UInt8) : List UInt8 := outputs whiten Prod.snd x ks

theorem entropyLoop_fst (env : Env σ) (n : Nat) (filled : List UInt8) (carry : Bool)
    (m : Machine σ) : (entropyLoop env n filled carry m).1 =
      (whitened (carry, m.entropyState) (mixes env n m.world)).reverse ++ filled := by
  induction n generalizing filled carry m with
  | zero => rfl
  | succ n ih =>
    rw [entropyLoop, ih]
    simp [entropyByte, mixes, whitened, outputs, whiten, UInt8.xor_assoc]

/-- The buffer, which is filled from its end. -/
def filledWith (x : Whitening) (ks : Bytes n) : Bytes n := ofList n (whitened x ks.toList).reverse

theorem entropyFill_fst (env : Env σ) (n : Nat) (carry : Bool) (m : Machine σ) :
    (entropyFill env n carry m).1 =
      filledWith (carry, m.entropyState) (ofList n (mixes env n m.world)) := by
  rw [entropyFill, filledWith, toList_ofList (length_mixes env n m.world), entropyLoop_fst,
    List.append_nil]

/-! ## Nothing is lost -/

/-- A pass can lead to every state, by one sum of the reads. -/
theorem whiten_bijective (x : Whitening) : Function.Bijective fun k => (whiten x k).2 := by
  constructor
  · intro k k' h
    exact (UInt8.xor_right_inj _).mp h
  · intro s
    refine ⟨((x.2 <<< 1) ||| if x.1 then 1 else 0) ^^^ s, ?_⟩
    simp only [whiten]
    rw [← UInt8.xor_assoc, UInt8.xor_self, UInt8.zero_xor]

/-- The register of nine bits. -/
def Whitening.register (x : Whitening) : BitVec 9 := BitVec.cons x.1 x.2.toBitVec

theorem register_injective : Function.Injective Whitening.register := by
  rintro ⟨c, s⟩ ⟨c', s'⟩ h
  have hmsb : c = c' := by simpa [Whitening.register] using congrArg BitVec.msb h
  have hlow : s.toBitVec = s'.toBitVec := by
    simpa [Whitening.register] using congrArg (BitVec.setWidth 8) h
  rw [hmsb, UInt8.toBitVec_inj.mp hlow]

/-- `rol`. -/
theorem turn_cons (c : Bool) (b : BitVec 8) :
    turn (BitVec.cons c b) = BitVec.cons (decide (0x80#8 ≤ b)) (b <<< 1 ||| if c then 1#8 else 0#8) := by
  revert b
  cases c <;> decide +kernel

/-- A pass turns it. -/
theorem register_whiten (x : Whitening) (k : UInt8) :
    (whiten x k).register = stir x.register (BitVec.cons false k.toBitVec) := by
  obtain ⟨c, s⟩ := x
  have hone : (if c then (1 : UInt8) else 0).toBitVec = if c then 1#8 else 0#8 := by
    cases c <;> rfl
  simp only [Whitening.register, whiten, stir, turn_cons, BitVec.cons_xor_cons, Bool.xor_false,
    UInt8.toBitVec_xor, UInt8.toBitVec_or, hone]
  rfl

theorem whiten_injective (k : UInt8) : Function.Injective (whiten · k) := by
  intro x y h
  have hregister := congrArg Whitening.register h
  simp only [register_whiten] at hregister
  exact register_injective (stir_injective _ hregister)

/-- The carry shows in the next state. -/
theorem carry_of_whiten {c c' : Bool} {s k : UInt8} (h : (whiten (c, s) k).2 = (whiten (c', s) k).2) :
    c = c' := by
  have hrol := (UInt8.xor_left_inj k).mp h
  have hbits := congrArg (fun b : UInt8 => b.toBitVec.getLsbD 0) hrol
  cases c <;> cases c' <;> simp at hbits ⊢

/-- Two states tell two starts apart. -/
theorem whitened_injective {ks : List UInt8} (hlong : 2 ≤ ks.length) :
    Function.Injective fun x => whitened x ks := by
  intro x y h
  rcases ks with _ | ⟨k, _ | ⟨k', ks⟩⟩
  · simp at hlong
  · simp at hlong
  · simp only [whitened, outputs, List.cons.injEq] at h
    obtain ⟨hfirst, hsecond, -⟩ := h
    apply whiten_injective k
    have hcarry : (whiten x k).1 = (whiten y k).1 := by
      generalize whiten x k = a at *
      generalize whiten y k = b at *
      obtain ⟨c, s⟩ := a
      obtain ⟨c', s'⟩ := b
      obtain rfl : s = s' := hfirst
      exact carry_of_whiten hsecond
    exact Prod.ext hcarry hfirst

/-- **Nothing is lost.** The bytes of `entropy_fill` are a function of the nine bits it starts from and of
what the two reads of each pass add up to. From any start it is a bijection, and for any reads two or
more bytes tell every start from every other. -/
theorem entropyFill_keeps (n : Nat) : ∃ f : Whitening → Bytes n → Bytes n,
    (∀ {σ : Type} (env : Env σ) (carry : Bool) (m : Machine σ), (entropyFill env n carry m).1 =
      f (carry, m.entropyState) (ofList n (mixes env n m.world))) ∧
    (∀ x, Function.Bijective (f x)) ∧ (2 ≤ n → ∀ ks, Function.Injective fun x => f x ks) := by
  have hlen : ∀ x (ks : Bytes n), (whitened x ks.toList).reverse.length = n := by simp [whitened]
  have hout : ∀ {x y} {ks js : Bytes n}, filledWith x ks = filledWith y js →
      whitened x ks.toList = whitened y js.toList := by
    intro x y ks js h
    have hlist := congrArg Vector.toList h
    rw [filledWith, filledWith, toList_ofList (hlen x ks), toList_ofList (hlen y js)] at hlist
    exact List.reverse_injective hlist
  refine ⟨filledWith, fun env carry m => entropyFill_fst env n carry m, fun x => ⟨?_, ?_⟩, ?_⟩
  · intro ks js h
    exact toList_inj.mp (outputs_injective (fun y => (whiten_bijective y).1) x (hout h))
  · intro key
    obtain ⟨ks, hks⟩ :=
      outputs_surjective (fun y => (whiten_bijective y).2) x key.toList.reverse
    have hn : ks.length = n := by
      have hlength := congrArg List.length hks
      simpa using hlength
    refine ⟨ofList n ks, ?_⟩
    rw [filledWith, toList_ofList hn, whitened, hks, List.reverse_reverse, ofList_toList]
  · intro hn ks x y h
    exact whitened_injective (by simpa using hn) (hout h)

/-! ## Reads that cancel -/

/-- The number of ones. -/
def ones (b : BitVec 8) : Nat := (List.range 8).countP b.getLsbD

/-- What nine passes with the same sum add to the state. -/
def flip (b : BitVec 8) : BitVec 8 := if ones b % 2 = 0 then 0#8 else 0xff#8

theorem drift_cons (b : BitVec 8) : (drift (BitVec.cons false b)).setWidth 8 = flip b := by
  revert b
  decide +kernel

theorem register_iterate (k : UInt8) (n : Nat) (x : Whitening) :
    ((whiten · k)^[n] x).register = (stir · (BitVec.cons false k.toBitVec))^[n] x.register :=
  (Function.Semiconj.iterate_right (fun x => register_whiten x k) n).eq x

theorem setWidth_register (x : Whitening) : x.register.setWidth 8 = x.2.toBitVec := by
  simp [Whitening.register]

/-- Nine passes. -/
theorem whiten_nine (k : UInt8) (x : Whitening) :
    ((whiten · k)^[9] x).2.toBitVec = x.2.toBitVec ^^^ flip k.toBitVec := by
  rw [← setWidth_register, register_iterate, iterate_stir_width, BitVec.setWidth_xor,
    setWidth_register, drift_cons]

/-- The bytes, from the end of the buffer. -/
theorem byte_filledWith (x : Whitening) (k : UInt8) {j : Nat} (hj : j < n) :
    byte (filledWith x (ofList n (List.replicate n k))) j = ((whiten · k)^[n - j] x).2 := by
  have hlen : (whitened x (List.replicate n k)).length = n := by simp [whitened]
  rw [filledWith, toList_ofList List.length_replicate, byte_ofList, if_pos hj,
    List.getD_eq_getElem?_getD, List.getElem?_reverse (by rw [hlen]; exact hj), hlen, whitened,
    getElem?_outputs _ _ _ (by simp; omega), List.take_replicate, foldl_replicate]
  have hmin : min (n - 1 - j + 1) n = n - j := by omega
  rw [hmin]
  rfl

/-- **Reads that cancel.** When what the two reads add up to stays the same, a byte comes back nine
places on, inverted when that sum has an odd number of ones. -/
theorem entropyFill_stuck {env : Env σ} {m : Machine σ} {k : UInt8}
    (h : mixes env n m.world = List.replicate n k) (carry : Bool) {j : Nat} (hj : j + 9 < n) :
    let key := (entropyFill env n carry m).1
    (byte key j).toBitVec = (byte key (j + 9)).toBitVec ^^^ flip k.toBitVec ∧
      (j + 18 < n → byte key j = byte key (j + 18)) := by
  have hnine : ∀ {j}, j + 9 < n → (byte (entropyFill env n carry m).1 j).toBitVec =
      (byte (entropyFill env n carry m).1 (j + 9)).toBitVec ^^^ flip k.toBitVec := by
    intro j hj
    have hsplit : n - j = 9 + (n - (j + 9)) := by omega
    rw [entropyFill_fst, h, byte_filledWith _ _ (by omega), byte_filledWith _ _ hj, hsplit,
      Function.iterate_add_apply, whiten_nine]
  refine ⟨hnine hj, fun hfar => ?_⟩
  apply UInt8.toBitVec_inj.mp
  rw [hnine hj, hnine (j := j + 9) (by omega), BitVec.xor_assoc, BitVec.xor_self, BitVec.xor_zero]

/-- Chips that read zero. -/
theorem entropyFill_stuck_zero :
    let key := (entropyFill scripted 32 false (scriptedStart [])).1
    byte key 0 = byte key 18 :=
  (entropyFill_stuck (k := 0) (j := 0) (by decide) false (by decide)).2 (by decide)

/-- The two sequences of the comment in `entropy.s`. -/
example : whitened (false, 0) (List.replicate 9 0xff) =
    [0xff, 0x01, 0xfc, 0x07, 0xf0, 0x1f, 0xc0, 0x7f, 0x00] := by decide

example : whitened (false, 0) (List.replicate 18 0x7f) =
    [0x7f, 0x81, 0x7d, 0x84, 0x77, 0x90, 0x5f, 0xc0, 0xff,
      0x80, 0x7e, 0x82, 0x7b, 0x88, 0x6f, 0xa0, 0x3f, 0x00] := by decide

end C64WireGuard
