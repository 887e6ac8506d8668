import C64WireGuard.Lib.Multibyte

/-!
# 32-bit words in little-endian memory

How a word is read from four bytes and written back to them, and the rotations and exclusive-or
that hash functions and stream ciphers are made of.
-/

namespace Words

/-- A little-endian 32-bit word from four bytes. -/
def wordOf (b₀ b₁ b₂ b₃ : UInt8) : UInt32 :=
  UInt32.ofBitVec (b₃.toBitVec ++ b₂.toBitVec ++ b₁.toBitVec ++ b₀.toBitVec)

/-- Byte `i` of a word, little-endian. -/
def byteOf (w : UInt32) (i : Nat) : UInt8 := UInt8.ofBitVec (w.toBitVec.extractLsb' (8 * i) 8)

/-- Rotate right. -/
def rotr (w : UInt32) (r : UInt32) : UInt32 := w >>> r ||| w <<< (32 - r)

/-- Rotate left. -/
def rotl (w : UInt32) (r : UInt32) : UInt32 := w <<< r ||| w >>> (32 - r)

theorem byteOf_wordOf (b₀ b₁ b₂ b₃ : UInt8) {i : Nat} (hi : i < 4) :
    byteOf (wordOf b₀ b₁ b₂ b₃) i = [b₀, b₁, b₂, b₃].getD i 0 := by
  apply UInt8.toBitVec_inj.mp
  apply BitVec.eq_of_getLsbD_eq
  intro j hj
  interval_cases i <;>
    simp only [byteOf, wordOf, UInt8.toBitVec_ofBitVec, UInt32.toBitVec_ofBitVec,
      BitVec.getLsbD_extractLsb', BitVec.getLsbD_append, hj, decide_true, Bool.true_and,
      List.getD_cons_zero, List.getD_cons_succ] <;> grind

theorem wordOf_byteOf (w : UInt32) :
    wordOf (byteOf w 0) (byteOf w 1) (byteOf w 2) (byteOf w 3) = w := by
  apply UInt32.toBitVec_inj.mp
  apply BitVec.eq_of_getLsbD_eq
  intro j hj
  simp only [byteOf, wordOf, UInt8.toBitVec_ofBitVec, UInt32.toBitVec_ofBitVec,
    BitVec.getLsbD_extractLsb', BitVec.getLsbD_append]
  grind

theorem wordOf_xor (a₀ a₁ a₂ a₃ b₀ b₁ b₂ b₃ : UInt8) :
    wordOf (a₀ ^^^ b₀) (a₁ ^^^ b₁) (a₂ ^^^ b₂) (a₃ ^^^ b₃) =
      wordOf a₀ a₁ a₂ a₃ ^^^ wordOf b₀ b₁ b₂ b₃ := by
  apply UInt32.toBitVec_inj.mp
  apply BitVec.eq_of_getLsbD_eq
  intro j hj
  simp only [wordOf, BitVec.getLsbD_append, BitVec.getLsbD_xor, UInt32.toBitVec_xor,
    UInt8.toBitVec_xor]
  split
  · rfl
  · split
    · rfl
    · split <;> rfl

/-- A word is the little-endian number of its bytes. -/
theorem wordOf_eq_ofNat (b₀ b₁ b₂ b₃ : UInt8) :
    wordOf b₀ b₁ b₂ b₃ = UInt32.ofNat (leNat [b₀, b₁, b₂, b₃]) := by
  have h₀ := b₀.toNat_lt
  have h₁ := b₁.toNat_lt
  have h₂ := b₂.toNat_lt
  have h₃ := b₃.toNat_lt
  apply UInt32.toNat_inj.mp
  simp only [wordOf, leNat, UInt32.toNat_ofBitVec, BitVec.toNat_append, UInt8.toNat_toBitVec,
    UInt32.toNat_ofNat']
  rw [← Nat.shiftLeft_add_eq_or_of_lt h₂, ← Nat.shiftLeft_add_eq_or_of_lt h₁,
    ← Nat.shiftLeft_add_eq_or_of_lt h₀]
  simp only [Nat.shiftLeft_eq]
  omega

end Words
