import C64WireGuard.Lib.Words
import Mathlib.Data.Nat.ModEq

/-!
# ChaCha20-Poly1305, as RFC 8439 specifies it

The cipher's state is sixteen `UInt32` words, the authenticator works on natural numbers modulo
`2^130 - 5`. `aeadOpen_aeadSeal` is the round trip, and `aeadOpen_tag` says that one tag and no
other opens a given ciphertext.
-/

namespace ChaChaPoly

open Bytes Words

/-! ## The block function -/

/-- The initial state: constants, key, counter and nonce, as 64 bytes. -/
def initState (key : Bytes 32) (counter : Bytes 4) (nonce : Bytes 12) : Bytes 64 :=
  let sigma : Bytes 16 := #v[0x65, 0x78, 0x70, 0x61, 0x6e, 0x64, 0x20, 0x33, 0x32, 0x2d, 0x62, 0x79,
    0x74, 0x65, 0x20, 0x6b]
  copyIn (copyIn (copyIn (copyIn (zero 64) 0 sigma) 16 key) 48 counter) 52 nonce

/-- The state's words. -/
def toWords (s : Bytes 64) : List UInt32 :=
  (List.range 16).map fun i =>
    wordOf (byte s (4 * i)) (byte s (4 * i + 1)) (byte s (4 * i + 2)) (byte s (4 * i + 3))

/-- Words back to bytes. -/
def ofWords (ws : List UInt32) : Bytes 64 :=
  tabulate 64 fun i => byteOf (ws.getD (i / 4) 0) (i % 4)

/-- The quarter round on four words. -/
def quarter (a b c d : UInt32) : UInt32 × UInt32 × UInt32 × UInt32 :=
  let a := a + b
  let d := rotl (d ^^^ a) 16
  let c := c + d
  let b := rotl (b ^^^ c) 12
  let a := a + b
  let d := rotl (d ^^^ a) 8
  let c := c + d
  let b := rotl (b ^^^ c) 7
  (a, b, c, d)

/-- The words each quarter round of a double round works on: columns, then diagonals. -/
def quarterIndices : List (Nat × Nat × Nat × Nat) :=
  [(0, 4, 8, 12), (1, 5, 9, 13), (2, 6, 10, 14), (3, 7, 11, 15),
   (0, 5, 10, 15), (1, 6, 11, 12), (2, 7, 8, 13), (3, 4, 9, 14)]

/-- One quarter round on the state. -/
def quarterRound (ws : List UInt32) (q : Nat × Nat × Nat × Nat) : List UInt32 :=
  let r := quarter (ws.getD q.1 0) (ws.getD q.2.1 0) (ws.getD q.2.2.1 0) (ws.getD q.2.2.2 0)
  (((ws.set q.1 r.1).set q.2.1 r.2.1).set q.2.2.1 r.2.2.1).set q.2.2.2 r.2.2.2

/-- Ten double rounds. -/
def rounds (ws : List UInt32) : List UInt32 :=
  (List.range 10).foldl (fun ws _ => quarterIndices.foldl quarterRound ws) ws

/-- A counter as four little-endian bytes. -/
def counterBytes (n : Nat) : Bytes 4 := tabulate 4 fun i => UInt8.ofNat (n / 256 ^ i)

/-- The 64 bytes of key stream for one counter value. -/
def block (key : Bytes 32) (counter : Nat) (nonce : Bytes 12) : Bytes 64 :=
  let s := toWords (initState key (counterBytes counter) nonce)
  ofWords (List.zipWith (· + ·) s (rounds s))

theorem length_quarterRound (ws : List UInt32) (q : Nat × Nat × Nat × Nat) :
    (quarterRound ws q).length = ws.length := by
  simp only [quarterRound, List.length_set]

theorem length_foldl_quarterRound (qs : List (Nat × Nat × Nat × Nat)) (ws : List UInt32) :
    (qs.foldl quarterRound ws).length = ws.length := by
  induction qs generalizing ws with
  | nil => rfl
  | cons q qs ih => rw [List.foldl_cons, ih, length_quarterRound]

theorem length_toWords (s : Bytes 64) : (toWords s).length = 16 := by
  simp [toWords]

/-- Sixteen words survive the trip through bytes. -/
theorem toWords_ofWords {ws : List UInt32} (h : ws.length = 16) : toWords (ofWords ws) = ws := by
  apply List.ext_getElem
  · rw [length_toWords, h]
  · intro i h₁ h₂
    have hi : i < 16 := by rwa [length_toWords] at h₁
    have hbyte : ∀ j, j < 4 → byte (ofWords ws) (4 * i + j) = byteOf ws[i] j := by
      intro j hj
      have hdiv : (4 * i + j) / 4 = i := by omega
      have hmod : (4 * i + j) % 4 = j := by omega
      rw [ofWords, byte_tabulate, if_pos (by omega), hdiv, hmod, List.getD_eq_getElem?_getD,
        List.getElem?_eq_getElem h₂, Option.getD_some]
    have h₀ := hbyte 0 (by decide)
    rw [Nat.add_zero] at h₀
    simp only [toWords, List.getElem_map, List.getElem_range, h₀, hbyte 1 (by decide),
      hbyte 2 (by decide), hbyte 3 (by decide), wordOf_byteOf]

theorem ofWords_toWords (s : Bytes 64) : ofWords (toWords s) = s := by
  apply ext_byte
  intro i hi
  have hword : (toWords s).getD (i / 4) 0 = wordOf (byte s (4 * (i / 4))) (byte s (4 * (i / 4) + 1))
      (byte s (4 * (i / 4) + 2)) (byte s (4 * (i / 4) + 3)) := by
    rw [toWords, List.getD_eq_getElem?_getD, List.getElem?_map, List.getElem?_range (by omega)]
    rfl
  rw [ofWords, byte_tabulate, if_pos hi, hword, byteOf_wordOf _ _ _ _ (Nat.mod_lt _ (by decide))]
  have hsplit : i = 4 * (i / 4) + i % 4 := (Nat.div_add_mod i 4).symm
  generalize i / 4 = q at *
  have hlt : i % 4 < 4 := Nat.mod_lt _ (by decide)
  generalize i % 4 = r at *
  subst hsplit
  interval_cases r <;> rfl

/-- `HChaCha20`: the first and the last four words after the rounds. -/
def hchacha20 (key : Bytes 32) (nonce : Bytes 16) : Bytes 32 :=
  let s := ofWords (rounds (toWords (initState key (slice nonce 0 4) (slice nonce 4 12))))
  copyIn (copyIn (zero 32) 0 (slice s 0 16)) 16 (slice s 48 16)

/-! ## The authenticator -/

/-- Absorb a message 16 bytes at a time, each with a one bit above its top byte. -/
def polyAbsorb (r : Nat) : Nat → Nat → List UInt8 → Nat
  | 0, acc, _ => acc
  | fuel + 1, acc, msg =>
      if msg = [] then acc
      else
        let chunk := msg.take 16
        polyAbsorb r fuel ((acc + leNat chunk + 256 ^ chunk.length) * r % (2 ^ 130 - 5)) (msg.drop 16)

/-- `Poly1305` of a message under a 32-byte one-time key. -/
def poly1305 (key : Bytes 32) (msg : List UInt8) : Bytes 16 :=
  let r := le (slice key 0 16) &&& 0x0ffffffc0ffffffc0ffffffc0fffffff
  let n := polyAbsorb r msg.length 0 msg + le (slice key 16 16)
  tabulate 16 fun i => UInt8.ofNat (n / 256 ^ i)

theorem polyAbsorb_nil (r fuel acc : Nat) : polyAbsorb r fuel acc [] = acc := by
  cases fuel with
  | zero => rfl
  | succ fuel => rw [polyAbsorb, if_pos rfl]

theorem polyAbsorb_block (r fuel acc : Nat) {block : List UInt8} (h : block.length = 16)
    (rest : List UInt8) :
    polyAbsorb r (fuel + 1) acc (block ++ rest) =
      polyAbsorb r fuel ((acc + leNat block + 2 ^ 128) * r % (2 ^ 130 - 5)) rest := by
  have hne : block ++ rest ≠ [] := by
    intro hnil
    rw [(List.append_eq_nil_iff.mp hnil).1] at h
    cases h
  rw [polyAbsorb, if_neg hne]
  dsimp only
  rw [List.take_left' h, List.drop_left' h, h]
  rfl

/-- The multiplier of a one-time key. -/
def multiplier (key : Bytes 32) : Nat :=
  le (slice key 0 16) &&& 0x0ffffffc0ffffffc0ffffffc0fffffff

/-- A message of three whole blocks. -/
theorem le_poly1305 (key : Bytes 32) {a b c : List UInt8} (ha : a.length = 16)
    (hb : b.length = 16) (hc : c.length = 16) :
    le (poly1305 key (a ++ (b ++ c))) =
      (((((leNat a + 2 ^ 128) * multiplier key % (2 ^ 130 - 5) + leNat b + 2 ^ 128) *
            multiplier key % (2 ^ 130 - 5) + leNat c + 2 ^ 128) * multiplier key % (2 ^ 130 - 5)) +
          le (slice key 16 16)) % 2 ^ 128 := by
  have hlen : (a ++ (b ++ c)).length = 48 := by
    rw [List.length_append, List.length_append, ha, hb, hc]
  have hlast := polyAbsorb_block (multiplier key) 45
    (((leNat a + 2 ^ 128) * multiplier key % (2 ^ 130 - 5) + leNat b + 2 ^ 128) *
      multiplier key % (2 ^ 130 - 5)) hc []
  rw [List.append_nil, polyAbsorb_nil] at hlast
  rw [poly1305, ← multiplier]
  rw [le_digits, hlen, polyAbsorb_block _ 47 _ ha, polyAbsorb_block _ 46 _ hb, Nat.zero_add, hlast]
  norm_num

/-- Zeros up to the next multiple of 16. -/
def pad16 (n : Nat) : List UInt8 := List.replicate ((16 - n % 16) % 16) 0

/-- A length as eight little-endian bytes. -/
def lenBytes (n : Nat) : List UInt8 := (List.range 8).map fun i => UInt8.ofNat (n / 256 ^ i)

/-! ## The construction -/

variable {n : Nat}

/-- Encrypt or decrypt: exclusive-or with the key stream from counter 1 on. -/
def xorStream (key : Bytes 32) (nonce : Bytes 12) (data : Bytes n) : Bytes n :=
  tabulate n fun i => byte data i ^^^ byte (block key (1 + i / 64) nonce) (i % 64)

/-- The tag over associated data and ciphertext. -/
def tag (key : Bytes 32) (nonce : Bytes 12) (aad : List UInt8) (ciphertext : Bytes n) : Bytes 16 :=
  poly1305 (slice (block key 0 nonce) 0 32)
    (aad ++ pad16 aad.length ++ ciphertext.toList ++ pad16 n ++ lenBytes aad.length ++ lenBytes n)

/-- One more in a ciphertext of one block: the square of the multiplier more in the accumulator. -/
theorem tag_increment (key : Bytes 32) (nonce : Bytes 12) {aad : List UInt8}
    (haad : aad.length = 16) {c c' : Bytes 16} (hc : le c' = le c + 1) :
    let r := multiplier (slice (block key 0 nonce) 0 32)
    ∃ y s, y < 2 ^ 130 - 5 ∧ le (tag key nonce aad c) = (y + s) % 2 ^ 128 ∧
      le (tag key nonce aad c') = ((y + r * r) % (2 ^ 130 - 5) + s) % 2 ^ 128 := by
  intro r
  have htag : ∀ c : Bytes 16, tag key nonce aad c =
      poly1305 (slice (block key 0 nonce) 0 32)
        (aad ++ (c.toList ++ (lenBytes 16 ++ lenBytes 16))) := by
    intro c
    have hpad : pad16 16 = [] := rfl
    rw [tag, haad, hpad, List.append_nil, List.append_nil]
    simp only [List.append_assoc]
  have hlen : (lenBytes 16 ++ lenBytes 16).length = 16 := rfl
  rw [htag, htag, le_poly1305 _ haad (by simp) hlen, le_poly1305 _ haad (by simp) hlen]
  refine ⟨_, _, Nat.mod_lt _ (by norm_num), rfl, ?_⟩
  have hc' : leNat c'.toList = leNat c.toList + 1 := hc
  rw [hc']
  generalize leNat c.toList = n
  have hstep : ∀ x l : Nat,
      (((x + (n + 1) + 2 ^ 128) * r % (2 ^ 130 - 5) + l + 2 ^ 128) * r) % (2 ^ 130 - 5) =
        ((((x + n + 2 ^ 128) * r % (2 ^ 130 - 5) + l + 2 ^ 128) * r) % (2 ^ 130 - 5) + r * r) %
          (2 ^ 130 - 5) := by
    intro x l
    have hdrop : ∀ u : Nat,
        (u % (2 ^ 130 - 5) + l + 2 ^ 128) * r ≡ (u + l + 2 ^ 128) * r [MOD 2 ^ 130 - 5] :=
      fun u => (((Nat.mod_modEq u _).add_right l).add_right _).mul_right r
    have hsum : ((x + (n + 1) + 2 ^ 128) * r + l + 2 ^ 128) * r =
        ((x + n + 2 ^ 128) * r + l + 2 ^ 128) * r + r * r := by ring
    refine (hdrop _).trans ?_
    rw [hsum]
    exact (((Nat.mod_modEq _ _).trans (hdrop _)).add_right (r * r)).symm
  rw [hstep]

/-- A sum of two residues is reduced at most once. -/
theorem add_mod_cases {y q m : Nat} (hy : y < m) (hq : q < m) :
    ∃ a, (a = 0 ∨ a = m) ∧ (y + q) % m + a = y + q := by
  by_cases h : y + q < m
  · exact ⟨0, .inl rfl, by rw [Nat.mod_eq_of_lt h, Nat.add_zero]⟩
  · refine ⟨m, .inr rfl, ?_⟩
    rw [Nat.mod_eq_sub_mod (by omega), Nat.mod_eq_of_lt (by omega)]
    omega

/-- Two keys that give both of two adjacent ciphertexts the same tags have multipliers whose squares
agree, up to a reduction on either side. -/
theorem tags_agree {key key' : Bytes 32} {nonce : Bytes 12} {aad : List UInt8}
    (haad : aad.length = 16) {c c' : Bytes 16} (hc : le c' = le c + 1)
    (h : tag key nonce aad c = tag key' nonce aad c)
    (h' : tag key nonce aad c' = tag key' nonce aad c') :
    let r := multiplier (slice (block key 0 nonce) 0 32)
    let r' := multiplier (slice (block key' 0 nonce) 0 32)
    ∃ a b, (a = 0 ∨ a = 2 ^ 130 - 5) ∧ (b = 0 ∨ b = 2 ^ 130 - 5) ∧
      r * r % (2 ^ 130 - 5) + a ≡ r' * r' % (2 ^ 130 - 5) + b [MOD 2 ^ 128] := by
  intro r r'
  obtain ⟨y, s, hy, h₀, h₁⟩ := tag_increment key nonce haad hc
  obtain ⟨y', s', hy', h₀', h₁'⟩ := tag_increment key' nonce haad hc
  rw [h, h₀'] at h₀
  rw [h', h₁', ← Nat.add_mod_mod y, ← Nat.add_mod_mod y'] at h₁
  have hpos : 0 < 2 ^ 130 - 5 := by norm_num
  obtain ⟨b, hb, hsum⟩ := add_mod_cases hy (Nat.mod_lt (r * r) hpos)
  obtain ⟨a, ha, hsum'⟩ := add_mod_cases hy' (Nat.mod_lt (r' * r') hpos)
  refine ⟨a, b, ha, hb, Nat.ModEq.add_left_cancel (Nat.ModEq.symm h₀) ?_⟩
  have hboth := (Nat.ModEq.symm h₁).add_right (a + b)
  have hleft : (y + r * r % (2 ^ 130 - 5)) % (2 ^ 130 - 5) + s + (a + b) =
      y + s + (r * r % (2 ^ 130 - 5) + a) := by omega
  have hright : (y' + r' * r' % (2 ^ 130 - 5)) % (2 ^ 130 - 5) + s' + (a + b) =
      y' + s' + (r' * r' % (2 ^ 130 - 5) + b) := by omega
  rwa [hleft, hright] at hboth

/-- Seal. -/
def aeadSeal (key : Bytes 32) (nonce : Bytes 12) (aad : List UInt8) (data : Bytes n) :
    Bytes n × Bytes 16 :=
  (xorStream key nonce data, tag key nonce aad (xorStream key nonce data))

/-- Seal with a 24-byte nonce: `XChaCha20-Poly1305`. -/
def xaeadSeal (key : Bytes 32) (nonce : Bytes 24) (aad : List UInt8) (data : Bytes n) :
    Bytes n × Bytes 16 :=
  aeadSeal (hchacha20 key (slice nonce 0 16)) (copyIn (zero 12) 4 (slice nonce 16 8)) aad data

/-- Open: whether the tag matches, and the decryption. -/
def aeadOpen (key : Bytes 32) (nonce : Bytes 12) (aad : List UInt8) (ciphertext : Bytes n)
    (t : Bytes 16) : Bool × Bytes n :=
  (t == tag key nonce aad ciphertext, xorStream key nonce ciphertext)

theorem xorStream_xorStream (key : Bytes 32) (nonce : Bytes 12) (data : Bytes n) :
    xorStream key nonce (xorStream key nonce data) = data := by
  apply ext_byte
  intro i hi
  simp only [xorStream, byte_tabulate, if_pos hi, UInt8.xor_assoc, UInt8.xor_self, UInt8.xor_zero]

/-- There is one empty ciphertext. -/
theorem tag_empty (key : Bytes 32) (nonce : Bytes 12) (aad : List UInt8) (hn : n = 0)
    (ciphertext : Bytes n) : tag key nonce aad ciphertext = tag key nonce aad (zero 0) := by
  subst hn
  have h : ciphertext = zero 0 := ext_byte (fun i hi => absurd hi (Nat.not_lt_zero i))
  rw [h]

/-- What was sealed opens. -/
theorem aeadOpen_aeadSeal (key : Bytes 32) (nonce : Bytes 12) (aad : List UInt8) (data : Bytes n) :
    aeadOpen key nonce aad (aeadSeal key nonce aad data).1 (aeadSeal key nonce aad data).2 =
      (true, data) := by
  simp only [aeadOpen, aeadSeal, beq_self_eq_true, xorStream_xorStream]

/-- One tag opens a ciphertext. -/
theorem aeadOpen_tag (key : Bytes 32) (nonce : Bytes 12) (aad : List UInt8) (ciphertext : Bytes n)
    (t : Bytes 16) :
    (aeadOpen key nonce aad ciphertext t).1 = true ↔ t = tag key nonce aad ciphertext := by
  rw [aeadOpen, beq_iff_eq]

end ChaChaPoly
