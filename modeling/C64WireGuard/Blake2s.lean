import C64WireGuard.Machine
import C64WireGuard.Lib.Blake2s

/-!
# `blake2s.s`

The hash as the program computes it: state and block are bytes, the mixing function works on
four-byte words of the working vector through the `word32` routines, and a full block is only
compressed once more data follows it.

`blake2s_digest` is the module's result: whatever the cells held before, the sequence
init – update … – final leaves RFC 7693's digest of the concatenated chunks.
-/

namespace C64WireGuard

open Bytes Words Blake2s

/-! ## Tables -/

section Tables

local instance neZero_sixteen : NeZero 16 := ⟨by decide⟩

/-- `blake2s_iv`. -/
def blake2sIv : Bytes 32 :=
  #v[0x67, 0xe6, 0x09, 0x6a, 0x85, 0xae, 0x67, 0xbb, 0x72, 0xf3, 0x6e, 0x3c, 0x3a, 0xf5, 0x4f, 0xa5,
     0x7f, 0x52, 0x0e, 0x51, 0x8c, 0x68, 0x05, 0x9b, 0xab, 0xd9, 0x83, 0x1f, 0x19, 0xcd, 0xe0, 0x5b]

/-- `blake2s_sigma`, ten rounds of sixteen entries. -/
def blake2sSigma : Vector (Fin 16) 160 :=
  #v[0, 1, 2, 3, 4, 5, 6, 7, 8, 9, 10, 11, 12, 13, 14, 15,
     14, 10, 4, 8, 9, 15, 13, 6, 1, 12, 0, 2, 11, 7, 5, 3,
     11, 8, 12, 0, 5, 2, 15, 13, 10, 14, 3, 6, 7, 1, 9, 4,
     7, 9, 3, 1, 13, 12, 11, 14, 2, 6, 5, 10, 4, 0, 15, 8,
     9, 0, 5, 7, 2, 4, 10, 15, 14, 1, 11, 12, 6, 8, 3, 13,
     2, 12, 6, 10, 0, 11, 8, 3, 4, 13, 7, 5, 15, 14, 1, 9,
     12, 5, 1, 15, 14, 13, 4, 10, 0, 7, 6, 3, 9, 2, 8, 11,
     13, 11, 7, 14, 12, 1, 3, 9, 5, 0, 15, 4, 8, 6, 2, 10,
     6, 15, 14, 9, 11, 3, 0, 8, 12, 2, 13, 7, 1, 4, 10, 5,
     10, 2, 8, 4, 7, 6, 1, 5, 15, 11, 9, 14, 3, 12, 13, 0]

/-- `blake2s_g_indices`, eight calls of four entries. -/
def blake2sGIndices : Vector (Fin 16) 32 :=
  #v[0, 4, 8, 12, 1, 5, 9, 13, 2, 6, 10, 14, 3, 7, 11, 15,
     0, 5, 10, 15, 1, 6, 11, 12, 2, 7, 8, 13, 3, 4, 9, 14]

end Tables

/-! ## Words in memory -/

/-- The word at `b2s_v + 4 i` or `b2s_block + 4 i`. -/
def wordAt (v : Bytes 64) (i : Nat) : UInt32 :=
  wordOf (byte v (4 * i)) (byte v (4 * i + 1)) (byte v (4 * i + 2)) (byte v (4 * i + 3))

/-- Store a word at `b2s_v + 4 i`. -/
def storeWord (v : Bytes 64) (i : Nat) (w : UInt32) : Bytes 64 :=
  copyIn v (4 * i) (tabulate 4 (byteOf w))

/-- `add32_to_dst`, on word `i` of the working vector. -/
def add32ToDst (v : Bytes 64) (i : Nat) (w : UInt32) : Bytes 64 := storeWord v i (wordAt v i + w)

/-- `xor32_in_place`. -/
def xor32InPlace (v : Bytes 64) (i : Nat) (w : UInt32) : Bytes 64 :=
  storeWord v i (wordAt v i ^^^ w)

/-- `rotr32_16`, `rotr32_12`, `rotr32_8` and `rotr32_7`. -/
def rotr32 (r : UInt32) (v : Bytes 64) (i : Nat) : Bytes 64 := storeWord v i (rotr (wordAt v i) r)

/-! ## The subroutines -/

/-- `blake2s_g`. -/
def blake2sG (v : Bytes 64) (a b c d : Nat) (x y : UInt32) : Bytes 64 :=
  let v := add32ToDst v a (wordAt v b)
  let v := add32ToDst v a x
  let v := rotr32 16 (xor32InPlace v d (wordAt v a)) d
  let v := add32ToDst v c (wordAt v d)
  let v := rotr32 12 (xor32InPlace v b (wordAt v c)) b
  let v := add32ToDst v a (wordAt v b)
  let v := add32ToDst v a y
  let v := rotr32 8 (xor32InPlace v d (wordAt v a)) d
  let v := add32ToDst v c (wordAt v d)
  rotr32 7 (xor32InPlace v b (wordAt v c)) b

/-- `@g_loop`: the eight calls of one round. -/
def blake2sRound (block : Bytes 64) (v : Bytes 64) (r : Fin 10) : Bytes 64 :=
  (List.finRange 8).foldl (fun v g =>
    blake2sG v (blake2sGIndices[4 * g.val]) (blake2sGIndices[4 * g.val + 1])
      (blake2sGIndices[4 * g.val + 2]) (blake2sGIndices[4 * g.val + 3])
      (wordAt block (blake2sSigma[16 * r.val + 2 * g.val]))
      (wordAt block (blake2sSigma[16 * r.val + 2 * g.val + 1]))) v

/-- The working vector `blake2s_compress` starts from. -/
def blake2sV (s : B2s) : Bytes 64 :=
  tabulate 64 fun i =>
    if i < 32 then byte s.b2sH i
    else if i < 48 then byte blake2sIv (i - 32)
    else if i < 56 then byte blake2sIv (i - 32) ^^^ byte s.b2sT (i - 48)
    else if i < 60 then byte blake2sIv (i - 32) ^^^ s.b2sF
    else byte blake2sIv (i - 32)

/-- `blake2s_compress`. -/
def blake2sCompress (s : B2s) : B2s :=
  let v := (List.finRange 10).foldl (blake2sRound s.b2sBlock) (blake2sV s)
  { s with b2sH := tabulate 32 fun i => byte s.b2sH i ^^^ byte v i ^^^ byte v (i + 32) }

/-- `blake2s_increment_counter`. -/
def blake2sIncrementCounter (s : B2s) : B2s :=
  { s with b2sT := ofList 8 (adcLe s.b2sT.toList (UInt8.ofNat s.b2sBufLen)) }

/-- `blake2s_init`. Both parameters come from the cells. -/
def blake2sInit (s : B2s) : B2s :=
  let h := put blake2sIv 0 (byte blake2sIv 0 ^^^ s.b2sOutLen)
  let h := put h 1 (byte h 1 ^^^ s.b2sKeyLen)
  let h := put h 2 (byte h 2 ^^^ 1)
  let h := put h 3 (byte h 3 ^^^ 1)
  let s := { s with b2sT := zero 8, b2sF := 0, b2sBufLen := 0, b2sH := h }
  if s.b2sKeyLen = 0 then s
  else
    { s with
      b2sBlock := copyIn (zero 64) 0 (slice s.inputBuffer 0 s.b2sKeyLen.toNat)
      b2sBufLen := 64 }

/-- One pass of `@loop_top` with data left: compress a full block, then fill the buffer. -/
def blake2sFill (data : List UInt8) (s : B2s) : B2s × List UInt8 :=
  let s :=
    if s.b2sBufLen = 64 then { blake2sCompress (blake2sIncrementCounter s) with b2sBufLen := 0 }
    else s
  let n := min (64 - s.b2sBufLen) data.length
  ({ s with
      b2sBlock := copyIn s.b2sBlock s.b2sBufLen (ofList n data)
      b2sBufLen := s.b2sBufLen + n }, data.drop n)

/-- `@loop_top`, at most `fuel` times. -/
def blake2sUpdateLoop : Nat → List UInt8 → B2s → B2s
  | 0, _, s => s
  | fuel + 1, data, s =>
      if data = [] then s
      else
        let r := blake2sFill data s
        blake2sUpdateLoop fuel r.2 r.1

/-- `blake2s_update`. Each pass consumes at least one byte. -/
def blake2sUpdate (data : List UInt8) (s : B2s) : B2s := blake2sUpdateLoop data.length data s

/-- `blake2s_final` up to its compression: count the last bytes, zero the rest of the block, set
the final flag. -/
def blake2sPad (s : B2s) : B2s :=
  { blake2sIncrementCounter s with
    b2sBlock := tabulate 64 fun i => if i < s.b2sBufLen then byte s.b2sBlock i else 0
    b2sF := 0xff }

/-- `blake2s_final`. -/
def blake2sFinal (s : B2s) : B2s :=
  let s := blake2sCompress (blake2sPad s)
  { s with b2sHash := copyIn s.b2sHash 0 (slice s.b2sH 0 s.b2sOutLen.toNat) }

/-- Log a `blake2s_init` and its parameters. -/
def B2s.logInit (site : HashSite) (s : B2s) : B2s :=
  { s with b2sInits := (site, s.b2sOutLen, s.b2sKeyLen) :: s.b2sInits }

/-- Init, one update per chunk, final. -/
def blake2sHash (site : HashSite) (chunks : List (List UInt8)) (s : B2s) : B2s :=
  blake2sFinal (chunks.foldl (fun s c => blake2sUpdate c s) (blake2sInit (s.logInit site)))

/-! ## Simulation of RFC 7693

`words16` and `stateWords` read the byte cells as words. Each step of the compression commutes
with them. -/

/-- The working vector, or a block, as words. -/
def words16 (v : Bytes 64) : Vector UInt32 16 := Vector.ofFn fun i : Fin 16 => wordAt v i

/-- The hash state as words. -/
def stateWords (h : Bytes 32) : Vector UInt32 8 :=
  Vector.ofFn fun i : Fin 8 =>
    wordOf (byte h (4 * i)) (byte h (4 * i + 1)) (byte h (4 * i + 2)) (byte h (4 * i + 3))

@[simp] theorem word_words16 (v : Bytes 64) (i : Fin 16) : word (words16 v) i = wordAt v i := by
  simp [word, words16]

theorem wordAt_storeWord (v : Bytes 64) {i j : Nat} (w : UInt32) (hi : i < 16) :
    wordAt (storeWord v i w) j = if i = j then w else wordAt v j := by
  by_cases h : i = j
  · subst h
    have h₀ : 4 * i < 64 := by omega
    have h₁ : 4 * i + 1 < 64 := by omega
    have h₂ : 4 * i + 2 < 64 := by omega
    have h₃ : 4 * i + 3 < 64 := by omega
    simp [wordAt, storeWord, h₀, h₁, h₂, h₃, wordOf_byteOf]
  · have hout : ∀ r < 4, ¬ (4 * i ≤ 4 * j + r ∧ 4 * j + r < 4 * i + 4 ∧ 4 * j + r < 64) := by
      intro r hr
      omega
    have h₀ := hout 0 (by omega)
    have h₁ := hout 1 (by omega)
    have h₂ := hout 2 (by omega)
    have h₃ := hout 3 (by omega)
    rw [Nat.add_zero] at h₀
    simp only [wordAt, storeWord, byte_copyIn, if_neg h₀, if_neg h₁, if_neg h₂, if_neg h₃, if_neg h]

theorem words16_storeWord (v : Bytes 64) (i : Fin 16) (w : UInt32) :
    words16 (storeWord v i w) = Blake2s.put (words16 v) i w := by
  apply Vector.ext
  intro j hj
  have hw := wordAt_storeWord v w i.isLt (j := j)
  have hp := word_put (words16 v) i ⟨j, hj⟩ w
  rw [word_words16] at hp
  simp only [word, Fin.ext_iff] at hp
  simp only [words16, Vector.getElem_ofFn, hw] at hp ⊢
  exact hp.symm

/-- `blake2s_g` is the mixing function. -/
theorem words16_blake2sG (v : Bytes 64) (a b c d : Fin 16) (x y : UInt32) :
    words16 (blake2sG v a b c d x y) = mix (words16 v) a b c d x y := by
  simp only [blake2sG, mix, add32ToDst, xor32InPlace, rotr32, ← word_words16, words16_storeWord,
    put_put, word_put_self]

theorem blake2sSigma_eq (r : Fin 10) (k : Fin 16) :
    blake2sSigma[16 * r.val + k.val] = (sigma.get r).get k := by
  revert r k
  decide

theorem blake2sGIndices_eq (g : Fin 8) :
    (blake2sGIndices[4 * g.val], blake2sGIndices[4 * g.val + 1], blake2sGIndices[4 * g.val + 2],
      blake2sGIndices[4 * g.val + 3]) = gIndices.get g := by
  revert g
  decide

theorem words16_blake2sRound (block v : Bytes 64) (r : Fin 10) :
    words16 (blake2sRound block v r) = round (words16 block) (words16 v) r := by
  have hfold : ∀ (gs : List (Fin 8)) (v : Bytes 64),
      words16 (gs.foldl (fun v g =>
        blake2sG v (blake2sGIndices[4 * g.val]) (blake2sGIndices[4 * g.val + 1])
          (blake2sGIndices[4 * g.val + 2]) (blake2sGIndices[4 * g.val + 3])
          (wordAt block (blake2sSigma[16 * r.val + 2 * g.val]))
          (wordAt block (blake2sSigma[16 * r.val + 2 * g.val + 1]))) v) =
      gs.foldl (fun v g =>
        let i := gIndices.get g
        mix v i.1 i.2.1 i.2.2.1 i.2.2.2 (word (words16 block) sigma[r][2 * g.val])
          (word (words16 block) sigma[r][2 * g.val + 1])) (words16 v) := by
    intro gs
    induction gs with
    | nil => intro v; rfl
    | cons g gs ih =>
        intro v
        have h₁ : blake2sSigma[16 * r.val + 2 * g.val] = sigma[r][2 * g.val] :=
          blake2sSigma_eq r ⟨2 * g.val, by omega⟩
        have h₂ : blake2sSigma[16 * r.val + 2 * g.val + 1] = sigma[r][2 * g.val + 1] :=
          blake2sSigma_eq r ⟨2 * g.val + 1, by omega⟩
        rw [List.foldl_cons, List.foldl_cons, ih, words16_blake2sG, ← blake2sGIndices_eq g]
        simp only [h₁, h₂, word_words16]
  exact hfold _ v

theorem words16_rounds (block v : Bytes 64) (rs : List (Fin 10)) :
    words16 (rs.foldl (blake2sRound block) v) =
      rs.foldl (round (words16 block)) (words16 v) := by
  induction rs generalizing v with
  | nil => rfl
  | cons r rs ih => rw [List.foldl_cons, List.foldl_cons, ih, words16_blake2sRound]

theorem stateWords_get (h : Bytes 32) {i : Nat} (hi : i < 8) :
    (stateWords h)[i] =
      wordOf (byte h (4 * i)) (byte h (4 * i + 1)) (byte h (4 * i + 2)) (byte h (4 * i + 3)) := by
  simp [stateWords]

theorem stateBytes_stateWords (h : Bytes 32) : stateBytes (stateWords h) = h := by
  apply ext_byte
  intro i hi
  have hq : i / 4 < 8 := by omega
  have hr : i % 4 < 4 := Nat.mod_lt _ (by omega)
  have hget : (stateWords h).toList.getD (i / 4) 0 = (stateWords h)[i / 4] := by
    simp [List.getD_eq_getElem?_getD, hq]
  rw [stateBytes, byte_tabulate, if_pos hi, hget, stateWords_get h hq, byteOf_wordOf _ _ _ _ hr]
  have hsplit : i = 4 * (i / 4) + i % 4 := by omega
  generalize i / 4 = q at *
  generalize i % 4 = r at *
  subst hsplit
  interval_cases r <;> rfl

/-- Only the low 64 bits of the byte count enter the working vector. -/
theorem compress_mod (h : Vector UInt32 8) (m : Vector UInt32 16) (t : Nat) (f : Bool) :
    compress h m (t % 2 ^ 64) f = compress h m t f := by
  have hlo : UInt32.ofNat (t % 2 ^ 64) = UInt32.ofNat t := by
    apply UInt32.toNat_inj.mp
    simp only [UInt32.toNat_ofNat']
    omega
  have hhi : UInt32.ofNat (t % 2 ^ 64 / 2 ^ 32) = UInt32.ofNat (t / 2 ^ 32) := by
    apply UInt32.toNat_inj.mp
    simp only [UInt32.toNat_ofNat']
    omega
  simp only [compress, initialV, hlo, hhi]

theorem le_eq_leNat_bytes8 (t : Bytes 8) :
    le t = leNat [byte t 0, byte t 1, byte t 2, byte t 3] +
      2 ^ 32 * leNat [byte t 4, byte t 5, byte t 6, byte t 7] := by
  have hl : t.toList = [byte t 0, byte t 1, byte t 2, byte t 3] ++
      [byte t 4, byte t 5, byte t 6, byte t 7] := by
    apply List.ext_getElem
    · simp
    · intro i h₁ h₂
      have hi : i < 8 := by simpa using h₁
      interval_cases i <;> simp [byte]
  rw [le, hl, leNat_append]
  norm_num

theorem stateWords_blake2sIv : stateWords blake2sIv = iv := by
  decide

theorem wordAt_blake2sV_lo (s : B2s) {j : Nat} (hj : j < 8) :
    wordAt (blake2sV s) j = (stateWords s.b2sH)[j] := by
  have hb : ∀ r < 4, byte (blake2sV s) (4 * j + r) = byte s.b2sH (4 * j + r) := by
    intro r hr
    rw [blake2sV, byte_tabulate, if_pos (by omega), if_pos (by omega)]
  rw [stateWords_get _ hj, wordAt, hb 1 (by omega), hb 2 (by omega), hb 3 (by omega),
    ← Nat.add_zero (4 * j), hb 0 (by omega)]

/-- The words the counter and the final flag are mixed into the initialization vector with. -/
def blake2sMixIn (s : B2s) (j : Nat) : UInt32 :=
  if j = 4 then wordOf (byte s.b2sT 0) (byte s.b2sT 1) (byte s.b2sT 2) (byte s.b2sT 3)
  else if j = 5 then wordOf (byte s.b2sT 4) (byte s.b2sT 5) (byte s.b2sT 6) (byte s.b2sT 7)
  else if j = 6 then wordOf s.b2sF s.b2sF s.b2sF s.b2sF
  else 0

theorem wordAt_blake2sV_hi (s : B2s) {j : Nat} (hj : j < 8) :
    wordAt (blake2sV s) (8 + j) = (stateWords blake2sIv)[j] ^^^ blake2sMixIn s j := by
  have hb : ∀ r < 4, byte (blake2sV s) (4 * (8 + j) + r) =
      if j < 4 then byte blake2sIv (4 * j + r)
      else if j < 6 then byte blake2sIv (4 * j + r) ^^^ byte s.b2sT (4 * (j - 4) + r)
      else if j < 7 then byte blake2sIv (4 * j + r) ^^^ s.b2sF
      else byte blake2sIv (4 * j + r) := by
    intro r hr
    have hi : 4 * (8 + j) + r - 32 = 4 * j + r := by omega
    rw [blake2sV, byte_tabulate, if_pos (by omega), if_neg (by omega), hi]
    split_ifs <;> first | omega | rfl | (congr 2; omega)
  have h₀ := hb 0 (by omega)
  rw [Nat.add_zero] at h₀
  rw [stateWords_get _ hj, wordAt, hb 1 (by omega), hb 2 (by omega), hb 3 (by omega), h₀,
    blake2sMixIn]
  interval_cases j
  all_goals simp only [Nat.reduceLT, Nat.reduceMul, Nat.reduceAdd, Nat.reduceSub, Nat.reduceEqDiff,
    if_true, if_false, wordOf_xor, UInt32.xor_zero]

theorem initialV_lo (h : Vector UInt32 8) (t : Nat) (f : Bool) {j : Nat} (hj : j < 8) :
    (initialV h t f)[j] = h[j] := by
  interval_cases j <;> rfl

theorem initialV_hi (h : Vector UInt32 8) (t : Nat) (f : Bool) {j : Nat} (hj : j < 8) :
    (initialV h t f)[8 + j] =
      iv[j] ^^^ (if j = 4 then UInt32.ofNat t else if j = 5 then UInt32.ofNat (t / 2 ^ 32)
        else if j = 6 then (if f then 0xffffffff else 0) else 0) := by
  cases f <;> interval_cases j <;> first | rfl | exact UInt32.xor_zero.symm

/-- The working vector `blake2s_compress` starts from is RFC 7693's. -/
theorem words16_blake2sV (s : B2s) (f : Bool) (hf : s.b2sF = if f then 0xff else 0) :
    words16 (blake2sV s) = initialV (stateWords s.b2sH) (le s.b2sT) f := by
  have hlo : wordOf (byte s.b2sT 0) (byte s.b2sT 1) (byte s.b2sT 2) (byte s.b2sT 3) =
      UInt32.ofNat (le s.b2sT) := by
    rw [le_eq_leNat_bytes8, wordOf_eq_ofNat]
    apply UInt32.toNat_inj.mp
    simp only [UInt32.toNat_ofNat']
    omega
  have hhi : wordOf (byte s.b2sT 4) (byte s.b2sT 5) (byte s.b2sT 6) (byte s.b2sT 7) =
      UInt32.ofNat (le s.b2sT / 2 ^ 32) := by
    have hlt := leNat_lt [byte s.b2sT 0, byte s.b2sT 1, byte s.b2sT 2, byte s.b2sT 3]
    simp only [List.length_cons, List.length_nil] at hlt
    have hdiv : le s.b2sT / 2 ^ 32 = leNat [byte s.b2sT 4, byte s.b2sT 5, byte s.b2sT 6,
        byte s.b2sT 7] := by
      rw [le_eq_leNat_bytes8]
      omega
    rw [hdiv, wordOf_eq_ofNat]
  have hff : wordOf s.b2sF s.b2sF s.b2sF s.b2sF = if f then 0xffffffff else 0 := by
    rw [hf]
    cases f <;> decide
  apply Vector.ext
  intro j hj
  rw [words16, Vector.getElem_ofFn]
  by_cases h8 : j < 8
  · rw [initialV_lo _ _ _ h8, wordAt_blake2sV_lo s h8]
  · obtain ⟨i, rfl⟩ : ∃ i, j = 8 + i := ⟨j - 8, by omega⟩
    have hi : i < 8 := by omega
    rw [initialV_hi _ _ _ hi, wordAt_blake2sV_hi s hi]
    simp only [stateWords_blake2sIv, blake2sMixIn, hlo, hhi, hff]

/-- **`blake2s_compress` is RFC 7693's compression function.** -/
theorem stateWords_blake2sCompress (s : B2s) (f : Bool) (hf : s.b2sF = if f then 0xff else 0) :
    stateWords (blake2sCompress s).b2sH =
      compress (stateWords s.b2sH) (words16 s.b2sBlock) (le s.b2sT) f := by
  rw [compress, ← words16_blake2sV s f hf, ← words16_rounds]
  generalize hv : (List.finRange 10).foldl (blake2sRound s.b2sBlock) (blake2sV s) = v
  have hcell : (blake2sCompress s).b2sH =
      tabulate 32 fun i => byte s.b2sH i ^^^ byte v i ^^^ byte v (i + 32) := by
    rw [← hv]
    rfl
  apply Vector.ext
  intro j hj
  have hb : ∀ r < 4, byte (blake2sCompress s).b2sH (4 * j + r) =
      byte s.b2sH (4 * j + r) ^^^ byte v (4 * j + r) ^^^ byte v (4 * (j + 8) + r) := by
    intro r hr
    rw [hcell, byte_tabulate, if_pos (by omega)]
    congr 2
    omega
  have h₀ := hb 0 (by omega)
  simp only [Nat.add_zero] at h₀
  rw [stateWords_get _ hj, hb 1 (by omega), hb 2 (by omega), hb 3 (by omega), h₀, wordOf_xor,
    wordOf_xor, Vector.getElem_ofFn]
  simp only [words16, Vector.getElem_ofFn, wordAt, Fin.getElem_fin, stateWords_get _ hj]

/-! ## Streaming

`Absorbed h₀ d s` says the cells `s` stand for having taken in `d`: all but the last block of
it is compressed, and that last block, possibly full, sits in the buffer. -/

/-- The cells after absorbing `d`, from the state words `h₀`. -/
structure Absorbed (h₀ : Vector UInt32 8) (d : List UInt8) (s : B2s) : Prop where
  state : stateWords s.b2sH = chain h₀ 0 ((d.length - 1) / 64) d
  bufLen : s.b2sBufLen = d.length - 64 * ((d.length - 1) / 64)
  block : ∀ i < s.b2sBufLen, byte s.b2sBlock i = d.getD (64 * ((d.length - 1) / 64) + i) 0
  count : le s.b2sT = 64 * ((d.length - 1) / 64) % 2 ^ 64
  flag : s.b2sF = 0

theorem words16_ofList (d : List UInt8) : words16 (ofList 64 d) = blockWords d := by
  apply Vector.ext
  intro j hj
  have hb : ∀ r < 4, byte (ofList 64 d) (4 * j + r) = d.getD (4 * j + r) 0 := by
    intro r hr
    rw [byte_ofList, if_pos (by omega)]
  have h₀ := hb 0 (by omega)
  rw [Nat.add_zero] at h₀
  simp only [words16, blockWords, Vector.getElem_ofFn, wordAt, h₀, hb 1 (by omega), hb 2 (by omega),
    hb 3 (by omega)]

theorem le_blake2sIncrementCounter (s : B2s) (h : s.b2sBufLen ≤ 64) :
    le (blake2sIncrementCounter s).b2sT = (le s.b2sT + s.b2sBufLen) % 2 ^ 64 := by
  have hlen : (adcLe s.b2sT.toList (UInt8.ofNat s.b2sBufLen)).length = 8 := by simp
  have hne : s.b2sT.toList ≠ [] := by
    intro hc
    have := congrArg List.length hc
    simp at this
  have hn : (UInt8.ofNat s.b2sBufLen).toNat = s.b2sBufLen := by
    rw [UInt8.toNat_ofNat']
    omega
  rw [le, blake2sIncrementCounter, toList_ofList hlen, leNat_adcLe _ _ hne, hn, le]
  simp

@[simp] theorem blake2sIncrementCounter_b2sH (s : B2s) :
    (blake2sIncrementCounter s).b2sH = s.b2sH := rfl

@[simp] theorem blake2sIncrementCounter_b2sBlock (s : B2s) :
    (blake2sIncrementCounter s).b2sBlock = s.b2sBlock := rfl

@[simp] theorem blake2sIncrementCounter_b2sF (s : B2s) :
    (blake2sIncrementCounter s).b2sF = s.b2sF := rfl

@[simp] theorem blake2sCompress_b2sT (s : B2s) : (blake2sCompress s).b2sT = s.b2sT := by
  simp only [blake2sCompress]

@[simp] theorem blake2sCompress_b2sF (s : B2s) : (blake2sCompress s).b2sF = s.b2sF := by
  simp only [blake2sCompress]

/-- A full buffer is compressed when more data follows. -/
theorem Absorbed.compress_full {h₀ : Vector UInt32 8} {d : List UInt8} {s : B2s}
    (h : Absorbed h₀ d s) (hfull : s.b2sBufLen = 64) :
    stateWords (blake2sCompress (blake2sIncrementCounter s)).b2sH = chain h₀ 0 (d.length / 64) d ∧
      d.length = 64 * (d.length / 64) ∧
      le (blake2sCompress (blake2sIncrementCounter s)).b2sT = 64 * (d.length / 64) % 2 ^ 64 := by
  have hlen := h.bufLen
  rw [hfull] at hlen
  obtain ⟨k, hk⟩ : ∃ k, (d.length - 1) / 64 = k := ⟨_, rfl⟩
  have hd : d.length = 64 * (k + 1) := by omega
  have hdiv : d.length / 64 = k + 1 := by omega
  have ht : le (blake2sIncrementCounter s).b2sT = 64 * (k + 1) % 2 ^ 64 := by
    rw [le_blake2sIncrementCounter s (by omega), h.count, hfull, hk]
    omega
  have hblock : words16 s.b2sBlock = blockWords ((d.drop (64 * k)).take 64) := by
    have hcell : s.b2sBlock = ofList 64 ((d.drop (64 * k)).take 64) := by
      apply ext_byte
      intro i hi
      have hb := h.block i (by omega)
      rw [hb, hk, byte_ofList, if_pos hi, List.getD_eq_getElem?_getD, List.getD_eq_getElem?_getD,
        List.getElem?_take_of_lt hi, List.getElem?_drop]
    rw [hcell, words16_ofList]
  refine ⟨?_, by omega, ?_⟩
  · have hc := stateWords_blake2sCompress (blake2sIncrementCounter s) false h.flag
    rw [hc, ht, compress_mod, blake2sIncrementCounter_b2sH, blake2sIncrementCounter_b2sBlock,
      hblock, h.state, hk, hdiv, chain_succ, Nat.zero_add]
  · rw [hdiv, blake2sCompress_b2sT, ht]

/-- One pass of the update loop absorbs the bytes it consumes. -/
theorem Absorbed.fill {h₀ : Vector UInt32 8} {d data : List UInt8} {s : B2s}
    (h : Absorbed h₀ d s) (hdata : data ≠ []) :
    ∃ n, 0 < n ∧ n ≤ data.length ∧ (blake2sFill data s).2 = data.drop n ∧
      Absorbed h₀ (d ++ data.take n) (blake2sFill data s).1 := by
  have hpos : 0 < data.length := List.length_pos_iff.mpr hdata
  have hlen := h.bufLen
  -- the buffer either was full and is now empty, or has room; `s'` is the state before the copy
  obtain ⟨s', hs', hroom, hstate, hbuf, hblock, hcount, hflag⟩ : ∃ s' : B2s,
      blake2sFill data s =
        (let n := min (64 - s'.b2sBufLen) data.length
         ({ s' with
            b2sBlock := copyIn s'.b2sBlock s'.b2sBufLen (ofList n data)
            b2sBufLen := s'.b2sBufLen + n }, data.drop n)) ∧
      s'.b2sBufLen < 64 ∧
      stateWords s'.b2sH = chain h₀ 0 (d.length / 64) d ∧
      s'.b2sBufLen = d.length - 64 * (d.length / 64) ∧
      (∀ i < s'.b2sBufLen, byte s'.b2sBlock i = d.getD (64 * (d.length / 64) + i) 0) ∧
      le s'.b2sT = 64 * (d.length / 64) % 2 ^ 64 ∧ s'.b2sF = 0 := by
    by_cases hfull : s.b2sBufLen = 64
    · obtain ⟨hst, hd, ht⟩ := h.compress_full hfull
      refine ⟨{ blake2sCompress (blake2sIncrementCounter s) with b2sBufLen := 0 }, ?_, ?_, hst,
        ?_, ?_, ht, ?_⟩
      · rw [blake2sFill, if_pos hfull]
      · exact Nat.zero_lt_succ _
      · simp only
        omega
      · intro i hi
        exact absurd hi (Nat.not_lt_zero i)
      · simp only [blake2sCompress_b2sF, blake2sIncrementCounter_b2sF, h.flag]
    · have hk : (d.length - 1) / 64 = d.length / 64 := by omega
      refine ⟨s, ?_, by omega, ?_, ?_, ?_, ?_, h.flag⟩
      · rw [blake2sFill, if_neg hfull]
      · rw [h.state, hk]
      · rw [hlen, hk]
      · intro i hi
        rw [h.block i hi, hk]
      · rw [h.count, hk]
  generalize hn : min (64 - s'.b2sBufLen) data.length = n at hs'
  have hn0 : 0 < n := by omega
  have hnl : n ≤ data.length := by omega
  have hnb : s'.b2sBufLen + n ≤ 64 := by omega
  have hk : ((d ++ data.take n).length - 1) / 64 = d.length / 64 := by
    rw [List.length_append, List.length_take, Nat.min_eq_left hnl]
    omega
  refine ⟨n, hn0, hnl, by rw [hs'], ?_⟩
  rw [hs']
  refine ⟨?_, ?_, ?_, ?_, hflag⟩
  · rw [hk, chain_append _ _ _ _ _ (by omega)]
    exact hstate
  · rw [hk, List.length_append, List.length_take, Nat.min_eq_left hnl]
    show s'.b2sBufLen + n = _
    omega
  · intro i hi
    have hi' : i < s'.b2sBufLen + n := hi
    rw [hk, List.getD_eq_getElem?_getD]
    show byte (copyIn s'.b2sBlock s'.b2sBufLen (ofList n data)) i = _
    rw [byte_copyIn]
    by_cases hold : i < s'.b2sBufLen
    · rw [if_neg (by omega), hblock i hold, List.getElem?_append_left (by omega),
        List.getD_eq_getElem?_getD]
    · have hin : i - s'.b2sBufLen < n := by omega
      have hoff : 64 * (d.length / 64) + i - d.length = i - s'.b2sBufLen := by omega
      rw [if_pos (by omega), List.getElem?_append_right (by omega), hoff,
        List.getElem?_take_of_lt hin, byte_ofList, if_pos hin, List.getD_eq_getElem?_getD]
  · rw [hk]
    exact hcount

theorem Absorbed.updateLoop {h₀ : Vector UInt32 8} (fuel : Nat) {d data : List UInt8} {s : B2s}
    (h : Absorbed h₀ d s) (hfuel : data.length ≤ fuel) :
    Absorbed h₀ (d ++ data) (blake2sUpdateLoop fuel data s) := by
  induction fuel generalizing d data s with
  | zero =>
      have hnil : data = [] := List.eq_nil_of_length_eq_zero (by omega)
      subst hnil
      rwa [blake2sUpdateLoop, List.append_nil]
  | succ fuel ih =>
      rw [blake2sUpdateLoop]
      by_cases hdata : data = []
      · rw [if_pos hdata, hdata, List.append_nil]
        exact h
      · obtain ⟨n, hn0, hnl, hrest, habs⟩ := h.fill hdata
        rw [if_neg hdata]
        have hlen : (blake2sFill data s).2.length ≤ fuel := by
          rw [hrest, List.length_drop]
          omega
        have hgo := ih habs hlen
        rwa [hrest, List.append_assoc, List.take_append_drop, ← hrest] at hgo

/-- `blake2s_update` absorbs its chunk, wherever the split falls. -/
theorem Absorbed.update {h₀ : Vector UInt32 8} {d : List UInt8} {s : B2s} (h : Absorbed h₀ d s)
    (data : List UInt8) : Absorbed h₀ (d ++ data) (blake2sUpdate data s) :=
  h.updateLoop data.length (Nat.le_refl _)

theorem Absorbed.updates {h₀ : Vector UInt32 8} {d : List UInt8} {s : B2s} (h : Absorbed h₀ d s)
    (chunks : List (List UInt8)) :
    Absorbed h₀ (d ++ chunks.flatten) (chunks.foldl (fun s c => blake2sUpdate c s) s) := by
  induction chunks generalizing d s with
  | nil => simpa using h
  | cons c cs ih =>
      have hgo := ih (h.update c)
      rwa [List.append_assoc, ← List.flatten_cons] at hgo

/-! ## The whole hash -/

/-- The parameter cells and the output, which only `blake2s_final` writes. -/
def B2s.params (s : B2s) : UInt8 × UInt8 × Bytes 256 × Bytes 32 :=
  (s.b2sOutLen, s.b2sKeyLen, s.inputBuffer, s.b2sHash)

theorem params_blake2sCompress (s : B2s) : (blake2sCompress s).params = s.params := by
  simp only [blake2sCompress, B2s.params]

theorem params_blake2sFill (data : List UInt8) (s : B2s) :
    (blake2sFill data s).1.params = s.params := by
  rw [blake2sFill]
  split
  · exact params_blake2sCompress (blake2sIncrementCounter s)
  · rfl

theorem params_blake2sUpdateLoop (fuel : Nat) (data : List UInt8) (s : B2s) :
    (blake2sUpdateLoop fuel data s).params = s.params := by
  induction fuel generalizing data s with
  | zero => rfl
  | succ fuel ih =>
      rw [blake2sUpdateLoop]
      split
      · rfl
      · rw [ih, params_blake2sFill]

theorem params_updates (chunks : List (List UInt8)) (s : B2s) :
    (chunks.foldl (fun s c => blake2sUpdate c s) s).params = s.params := by
  induction chunks generalizing s with
  | nil => rfl
  | cons c cs ih => rw [List.foldl_cons, ih, blake2sUpdate, params_blake2sUpdateLoop]

theorem params_blake2sInit (s : B2s) : (blake2sInit s).params = s.params := by
  rw [blake2sInit]
  split <;> rfl

/-- The parameter block, as `blake2s_init` mixes it in byte by byte. -/
theorem wordOf_params (nn kk : UInt8) :
    wordOf nn kk 1 1 =
      (0x01010000 : UInt32) ^^^ (UInt32.ofNat kk.toNat <<< (8 : UInt32)) ^^^ UInt32.ofNat nn.toNat := by
  have hn := nn.toNat_lt
  have hk := kk.toNat_lt
  have hnn : UInt32.ofNat nn.toNat = wordOf nn 0 0 0 := by
    rw [wordOf_eq_ofNat]
    simp [leNat]
  have hkk : UInt32.ofNat kk.toNat <<< (8 : UInt32) = wordOf 0 kk 0 0 := by
    rw [wordOf_eq_ofNat]
    apply UInt32.toNat_inj.mp
    simp [leNat, UInt32.toNat_shiftLeft, Nat.shiftLeft_eq]
    omega
  have hc : (0x01010000 : UInt32) = wordOf 0 0 1 1 := by decide
  rw [hnn, hkk, hc, ← wordOf_xor, ← wordOf_xor]
  simp

theorem stateWords_blake2sInit (s : B2s) :
    stateWords (blake2sInit s).b2sH = initialH s.b2sOutLen.toNat s.b2sKeyLen.toNat := by
  have hh : ∀ i, i < 32 → byte (blake2sInit s).b2sH i = byte blake2sIv i ^^^
      (if i = 0 then s.b2sOutLen else if i = 1 then s.b2sKeyLen else if i < 4 then 1 else 0) := by
    intro i hi
    have hcell : (blake2sInit s).b2sH =
        put (put (put (put blake2sIv 0 (byte blake2sIv 0 ^^^ s.b2sOutLen)) 1
          (byte blake2sIv 1 ^^^ s.b2sKeyLen)) 2 (byte blake2sIv 2 ^^^ 1)) 3
          (byte blake2sIv 3 ^^^ 1) := by
      rw [blake2sInit]
      split <;> simp
    rw [hcell]
    simp only [byte_put, hi, and_true]
    split_ifs <;> first | omega | (subst_vars; first | rfl | simp)
  apply Vector.ext
  intro j hj
  rw [stateWords_get _ hj, hh _ (by omega), hh _ (by omega), hh _ (by omega), hh _ (by omega),
    wordOf_xor, ← stateWords_get blake2sIv hj]
  simp only [initialH, Vector.getElem_set, stateWords_blake2sIv]
  by_cases h0 : j = 0
  · subst h0
    simp only [Nat.mul_zero, Nat.zero_add, if_true, Nat.reduceEqDiff, if_false, Nat.reduceLT,
      wordOf_params, UInt32.xor_assoc]
  · have hz : wordOf 0 0 0 0 = 0 := by decide
    simp only [show ¬ 4 * j = 0 by omega, show ¬ 4 * j = 1 by omega, show ¬ 4 * j < 4 by omega,
      show ¬ 4 * j + 1 = 0 by omega, show ¬ 4 * j + 1 = 1 by omega, show ¬ 4 * j + 1 < 4 by omega,
      show ¬ 4 * j + 2 = 0 by omega, show ¬ 4 * j + 2 = 1 by omega, show ¬ 4 * j + 2 < 4 by omega,
      show ¬ 4 * j + 3 = 0 by omega, show ¬ 4 * j + 3 = 1 by omega, show ¬ 4 * j + 3 < 4 by omega,
      show ¬ 0 = j by omega, if_false, hz, UInt32.xor_zero]

/-- The key as `blake2s_init` reads it. -/
def b2sKey (s : B2s) : List UInt8 := (slice s.inputBuffer 0 s.b2sKeyLen.toNat).toList

theorem absorbed_blake2sInit (s : B2s) (hk : s.b2sKeyLen.toNat ≤ 64) :
    Absorbed (initialH s.b2sOutLen.toNat s.b2sKeyLen.toNat)
      (if s.b2sKeyLen = 0 then [] else b2sKey s ++ List.replicate (64 - (b2sKey s).length) 0)
      (blake2sInit s) := by
  have hstate := stateWords_blake2sInit s
  by_cases h0 : s.b2sKeyLen = 0
  · rw [if_pos h0]
    refine ⟨hstate, ?_, ?_, ?_, ?_⟩
    all_goals simp [blake2sInit, h0]
  · have hlen : (b2sKey s).length = s.b2sKeyLen.toNat := by simp [b2sKey]
    rw [if_neg h0]
    have hd : (b2sKey s ++ List.replicate (64 - (b2sKey s).length) 0).length = 64 := by
      simp [hlen]
      omega
    refine ⟨?_, ?_, ?_, ?_, ?_⟩
    · rw [hd]
      exact hstate
    · rw [hd]
      simp [blake2sInit, h0]
    · intro i hi
      rw [hd]
      have hi' : i < 64 := by simpa [blake2sInit, h0] using hi
      have hcell : (blake2sInit s).b2sBlock =
          copyIn (zero 64) 0 (slice s.inputBuffer 0 s.b2sKeyLen.toNat) := by
        simp [blake2sInit, h0]
      rw [hcell, byte_copyIn, byte_zero, List.getD_eq_getElem?_getD]
      by_cases hik : i < s.b2sKeyLen.toNat
      · rw [if_pos (by omega), List.getElem?_append_left (by omega), ← List.getD_eq_getElem?_getD,
          b2sKey, getD_toList]
        simp
      · rw [if_neg (by omega), List.getElem?_append_right (by omega), List.getElem?_replicate]
        split <;> rfl
    · rw [hd]
      simp [blake2sInit, h0]
    · simp [blake2sInit, h0]

theorem params_compress_pad (s : B2s) :
    (blake2sCompress (blake2sPad s)).params = s.params := by
  rw [params_blake2sCompress]
  rfl

/-- `blake2s_final` finishes the hash of what was absorbed. -/
theorem Absorbed.final {h₀ : Vector UInt32 8} {d : List UInt8} {s : B2s} (h : Absorbed h₀ d s) :
    (blake2sFinal s).b2sHash =
      copyIn s.b2sHash 0 (slice (stateBytes (absorb h₀ 0 ((d.length - 1) / 64) d)) 0
        s.b2sOutLen.toNat) := by
  have hlen := h.bufLen
  have hblock : (blake2sPad s).b2sBlock = ofList 64 (d.drop (64 * ((d.length - 1) / 64))) := by
    apply ext_byte
    intro i hi
    rw [blake2sPad, byte_tabulate, if_pos hi, byte_ofList, if_pos hi, List.getD_eq_getElem?_getD,
      List.getElem?_drop, ← List.getD_eq_getElem?_getD]
    by_cases hib : i < s.b2sBufLen
    · rw [if_pos hib, h.block i hib]
    · rw [if_neg hib, List.getD_eq_getElem?_getD, List.getElem?_eq_none (by omega)]
      rfl
  have ht : le (blake2sPad s).b2sT = d.length % 2 ^ 64 := by
    have hinc := le_blake2sIncrementCounter s (by omega)
    rw [h.count] at hinc
    rw [blake2sPad, hinc]
    omega
  have hc := stateWords_blake2sCompress (blake2sPad s) true rfl
  have hh : (blake2sPad s).b2sH = s.b2sH := rfl
  rw [hh, h.state, hblock, words16_ofList, ht, compress_mod] at hc
  have hp := params_compress_pad s
  simp only [B2s.params, Prod.mk.injEq] at hp
  obtain ⟨hout, -, -, hhash⟩ := hp
  have hfin : (blake2sFinal s).b2sHash =
      copyIn s.b2sHash 0 (slice (blake2sCompress (blake2sPad s)).b2sH 0 s.b2sOutLen.toNat) := by
    rw [blake2sFinal]
    simp only [hhash]
    rw [hout]
  rw [hfin, absorb_eq_chain _ _ _ _ (by omega), Nat.zero_add, ← hc, stateBytes_stateWords]

/-- Init, any updates, final: the output cells hold RFC 7693's digest of the chunks, however they
were split. -/
theorem blake2s_spec (chunks : List (List UInt8)) (s : B2s) (hk : s.b2sKeyLen.toNat ≤ 64) :
    (blake2sFinal (chunks.foldl (fun s c => blake2sUpdate c s) (blake2sInit s))).b2sHash =
      copyIn s.b2sHash 0 (digest s.b2sOutLen.toNat (b2sKey s) chunks.flatten) := by
  have habs : Absorbed (initialH s.b2sOutLen.toNat s.b2sKeyLen.toNat)
      ((if s.b2sKeyLen = 0 then [] else b2sKey s ++ List.replicate (64 - (b2sKey s).length) 0) ++
        chunks.flatten)
      (chunks.foldl (fun s c => blake2sUpdate c s) (blake2sInit s)) :=
    (absorbed_blake2sInit s hk).updates chunks
  have hp : (chunks.foldl (fun s c => blake2sUpdate c s) (blake2sInit s)).params = s.params := by
    rw [params_updates, params_blake2sInit]
  simp only [B2s.params, Prod.mk.injEq] at hp
  obtain ⟨hout, -, -, hhash⟩ := hp
  have hlen : (b2sKey s).length = s.b2sKeyLen.toNat := by simp [b2sKey]
  have hnil : b2sKey s = [] ↔ s.b2sKeyLen = 0 := by
    rw [← List.length_eq_zero_iff, hlen, ← UInt8.toNat_inj]
    rfl
  rw [habs.final, hout, hhash, digest, Blake2s.hash, input, hlen]
  simp only [hnil]
  split <;> simp

/-- The log of `blake2s_init` is not read. -/
theorem blake2sHash_spec (site : HashSite) (chunks : List (List UInt8)) (s : B2s)
    (hk : s.b2sKeyLen.toNat ≤ 64) :
    (blake2sHash site chunks s).b2sHash =
      copyIn s.b2sHash 0 (digest s.b2sOutLen.toNat (b2sKey s) chunks.flatten) :=
  blake2s_spec chunks (s.logInit site) hk

/-- The cells before `blake2s_init`, with a key and an output length in place. -/
def B2s.keyed (key : List UInt8) (outLen : Nat) (s : B2s) : B2s :=
  { s with
    inputBuffer := copyIn s.inputBuffer 0 (ofList key.length key)
    b2sKeyLen := UInt8.ofNat key.length
    b2sOutLen := UInt8.ofNat outLen }

theorem b2sKey_keyed {key : List UInt8} (hkey : key.length ≤ 32) (outLen : Nat) (s : B2s) :
    b2sKey (s.keyed key outLen) = key := by
  have hlen : (UInt8.ofNat key.length).toNat = key.length := by
    rw [UInt8.toNat_ofNat']
    omega
  have hslice : slice (copyIn s.inputBuffer 0 (ofList key.length key)) 0 key.length =
      ofList key.length key := slice_copyIn_self _ _ (by omega)
  simp only [b2sKey, B2s.keyed]
  rw [hlen, hslice, toList_ofList rfl]

/-- **BLAKE2s is computed.** For every key of at most 32 bytes, every output length and every
sequence of chunks, init – update … – final leaves RFC 7693's digest of the message, and so the same
for every way to split it. -/
theorem blake2s_digest (s : B2s) (key : List UInt8) (outLen : Nat) (chunks : List (List UInt8))
    (hkey : key.length ≤ 32) (hout : 1 ≤ outLen ∧ outLen ≤ 32) :
    slice (blake2sFinal (chunks.foldl (fun s c => blake2sUpdate c s)
        (blake2sInit (s.keyed key outLen)))).b2sHash 0 outLen = digest outLen key chunks.flatten ∧
      ∀ chunks' : List (List UInt8), chunks'.flatten = chunks.flatten →
        slice (blake2sFinal (chunks'.foldl (fun s c => blake2sUpdate c s)
          (blake2sInit (s.keyed key outLen)))).b2sHash 0 outLen =
        slice (blake2sFinal (chunks.foldl (fun s c => blake2sUpdate c s)
          (blake2sInit (s.keyed key outLen)))).b2sHash 0 outLen := by
  have hlen : (s.keyed key outLen).b2sKeyLen.toNat = key.length := by
    simp only [B2s.keyed]
    rw [UInt8.toNat_ofNat']
    omega
  have houtLen : (s.keyed key outLen).b2sOutLen.toNat = outLen := by
    simp only [B2s.keyed]
    rw [UInt8.toNat_ofNat']
    omega
  have hdigest : ∀ chunks : List (List UInt8),
      slice (blake2sFinal (chunks.foldl (fun s c => blake2sUpdate c s)
        (blake2sInit (s.keyed key outLen)))).b2sHash 0 outLen =
      digest outLen key chunks.flatten := by
    intro chunks
    rw [blake2s_spec chunks _ (by omega), b2sKey_keyed hkey, houtLen]
    exact slice_copyIn_self _ _ (by omega)
  refine ⟨hdigest chunks, fun chunks' hflat => ?_⟩
  rw [hdigest chunks', hdigest chunks, hflat]

/-- A keyed hash of three chunks, one of them empty. -/
theorem blake2s_digest_sample :
    slice (blake2sFinal (blake2sUpdate [3] (blake2sUpdate [] (blake2sUpdate [1, 2]
        (blake2sInit ((B2s.start 0).keyed [7] 16)))))).b2sHash 0 16 =
      digest 16 [7] [1, 2, 3] :=
  (blake2s_digest (.start 0) [7] 16 [[1, 2], [], [3]] (by decide) (by decide)).1

/-- Whether a hash is keyed, and how long it is, is decided by cells that it leaves alone. -/
theorem blake2sHash_params (site : HashSite) (chunks : List (List UInt8)) (s : B2s) :
    (blake2sHash site chunks s).b2sOutLen = s.b2sOutLen ∧
      (blake2sHash site chunks s).b2sKeyLen = s.b2sKeyLen ∧
      (blake2sHash site chunks s).inputBuffer = s.inputBuffer := by
  have hp : (chunks.foldl (fun s c => blake2sUpdate c s) (blake2sInit (s.logInit site))).params =
      s.params := by
    rw [params_updates, params_blake2sInit]
    rfl
  have hq := params_compress_pad
    (chunks.foldl (fun s c => blake2sUpdate c s) (blake2sInit (s.logInit site)))
  rw [hp] at hq
  simp only [B2s.params, Prod.mk.injEq] at hq
  exact ⟨hq.1, hq.2.1, hq.2.2.1⟩

end C64WireGuard
