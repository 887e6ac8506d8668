import C64WireGuard.Lib.Words

/-!
# BLAKE2s, as RFC 7693 specifies it

State and message words are `UInt32`. `Blake2s.digest` is the whole function: key block, message
blocks, parameter block, compression, truncation.
-/

namespace Blake2s

open Words

/-- The initialization vector. -/
def iv : Vector UInt32 8 :=
  #v[0x6a09e667, 0xbb67ae85, 0x3c6ef372, 0xa54ff53a, 0x510e527f, 0x9b05688c, 0x1f83d9ab, 0x5be0cd19]

/-- The message schedule, one permutation per round. -/
def sigma : Vector (Vector (Fin 16) 16) 10 :=
  #v[#v[0, 1, 2, 3, 4, 5, 6, 7, 8, 9, 10, 11, 12, 13, 14, 15],
     #v[14, 10, 4, 8, 9, 15, 13, 6, 1, 12, 0, 2, 11, 7, 5, 3],
     #v[11, 8, 12, 0, 5, 2, 15, 13, 10, 14, 3, 6, 7, 1, 9, 4],
     #v[7, 9, 3, 1, 13, 12, 11, 14, 2, 6, 5, 10, 4, 0, 15, 8],
     #v[9, 0, 5, 7, 2, 4, 10, 15, 14, 1, 11, 12, 6, 8, 3, 13],
     #v[2, 12, 6, 10, 0, 11, 8, 3, 4, 13, 7, 5, 15, 14, 1, 9],
     #v[12, 5, 1, 15, 14, 13, 4, 10, 0, 7, 6, 3, 9, 2, 8, 11],
     #v[13, 11, 7, 14, 12, 1, 3, 9, 5, 0, 15, 4, 8, 6, 2, 10],
     #v[6, 15, 14, 9, 11, 3, 0, 8, 12, 2, 13, 7, 1, 4, 10, 5],
     #v[10, 2, 8, 4, 7, 6, 1, 5, 15, 11, 9, 14, 3, 12, 13, 0]]

/-- The words each call of the mixing function works on, column step then diagonal step. -/
def gIndices : Vector (Fin 16 × Fin 16 × Fin 16 × Fin 16) 8 :=
  #v[(0, 4, 8, 12), (1, 5, 9, 13), (2, 6, 10, 14), (3, 7, 11, 15),
     (0, 5, 10, 15), (1, 6, 11, 12), (2, 7, 8, 13), (3, 4, 9, 14)]

/-- Word `i` of the working vector or of a block. -/
def word (v : Vector UInt32 16) (i : Fin 16) : UInt32 := v[i]

/-- Replace one word of the working vector. -/
def put (v : Vector UInt32 16) (i : Fin 16) (w : UInt32) : Vector UInt32 16 := v.set i w

/-- The mixing function `G`. -/
def mix (v : Vector UInt32 16) (a b c d : Fin 16) (x y : UInt32) : Vector UInt32 16 :=
  let v := put v a (word v a + word v b + x)
  let v := put v d (rotr (word v d ^^^ word v a) 16)
  let v := put v c (word v c + word v d)
  let v := put v b (rotr (word v b ^^^ word v c) 12)
  let v := put v a (word v a + word v b + y)
  let v := put v d (rotr (word v d ^^^ word v a) 8)
  let v := put v c (word v c + word v d)
  put v b (rotr (word v b ^^^ word v c) 7)

/-- One round: the eight calls of `mix`. -/
def round (m : Vector UInt32 16) (v : Vector UInt32 16) (r : Fin 10) : Vector UInt32 16 :=
  (List.finRange 8).foldl (fun v g =>
    let (a, b, c, d) := gIndices[g]
    mix v a b c d (word m sigma[r][2 * g.val]) (word m sigma[r][2 * g.val + 1])) v

/-- The working vector before the rounds. -/
def initialV (h : Vector UInt32 8) (t : Nat) (f : Bool) : Vector UInt32 16 :=
  #v[h[0], h[1], h[2], h[3], h[4], h[5], h[6], h[7], iv[0], iv[1], iv[2], iv[3],
     iv[4] ^^^ UInt32.ofNat t, iv[5] ^^^ UInt32.ofNat (t / 2 ^ 32),
     if f then iv[6] ^^^ 0xffffffff else iv[6], iv[7]]

/-- The compression function `F`. -/
def compress (h : Vector UInt32 8) (m : Vector UInt32 16) (t : Nat) (f : Bool) :
    Vector UInt32 8 :=
  let v := (List.finRange 10).foldl (round m) (initialV h t f)
  Vector.ofFn fun i : Fin 8 => h[i] ^^^ v[i.val] ^^^ v[i.val + 8]

/-- The sixteen words of a block, zero-padded to 64 bytes. -/
def blockWords (d : List UInt8) : Vector UInt32 16 :=
  Vector.ofFn fun i : Fin 16 =>
    wordOf (d.getD (4 * i) 0) (d.getD (4 * i + 1) 0) (d.getD (4 * i + 2) 0) (d.getD (4 * i + 3) 0)

/-- Compress `k` full blocks, then what is left as the final block. -/
def absorb (h : Vector UInt32 8) (t : Nat) : Nat → List UInt8 → Vector UInt32 8
  | 0, d => compress h (blockWords d) (t + d.length) true
  | k + 1, d => absorb (compress h (blockWords (d.take 64)) (t + 64) false) (t + 64) k (d.drop 64)

/-- The initial state for an output of `nn` bytes and a key of `kk` bytes. -/
def initialH (nn kk : Nat) : Vector UInt32 8 :=
  iv.set 0 (iv[0] ^^^ (0x01010000 : UInt32) ^^^ (UInt32.ofNat kk <<< (8 : UInt32)) ^^^ UInt32.ofNat nn)

/-- The state words as bytes. -/
def stateBytes (h : Vector UInt32 8) : Bytes 32 :=
  Bytes.tabulate 32 fun i => byteOf (h.toList.getD (i / 4) 0) (i % 4)

/-- The bytes to absorb: the key padded to a block, unless it is empty, then the message. -/
def input (key msg : List UInt8) : List UInt8 :=
  if key = [] then msg else key ++ List.replicate (64 - key.length) 0 ++ msg

/-- The state after a keyed or unkeyed hash; the digest is its first `nn` bytes. -/
def hash (nn : Nat) (key msg : List UInt8) : Bytes 32 :=
  let d := input key msg
  stateBytes (absorb (initialH nn key.length) 0 ((d.length - 1) / 64) d)

/-- `BLAKE2s` with an output of `nn ≤ 32` bytes. -/
def digest (nn : Nat) (key msg : List UInt8) : Bytes nn := Bytes.slice (hash nn key msg) 0 nn

/-! ## The working vector -/

theorem word_put (v : Vector UInt32 16) (i j : Fin 16) (w : UInt32) :
    word (put v i w) j = if i = j then w else word v j := by
  simp [word, put, Vector.getElem_set, Fin.ext_iff]

@[simp] theorem word_put_self (v : Vector UInt32 16) (i : Fin 16) (w : UInt32) :
    word (put v i w) i = w := by
  rw [word_put, if_pos rfl]

@[simp] theorem put_put (v : Vector UInt32 16) (i : Fin 16) (w w' : UInt32) :
    put (put v i w) i w' = put v i w' := by
  simp [put]

/-! ## Block chaining

`chain` is the state after `k` full blocks. A streaming implementation carries it together with
the bytes not yet compressed. -/

/-- The state after compressing `k` full blocks of `d`. -/
def chain (h : Vector UInt32 8) (t : Nat) : Nat → List UInt8 → Vector UInt32 8
  | 0, _ => h
  | k + 1, d => chain (compress h (blockWords (d.take 64)) (t + 64) false) (t + 64) k (d.drop 64)

theorem absorb_eq_chain (h : Vector UInt32 8) (t k : Nat) (d : List UInt8)
    (hk : 64 * k ≤ d.length) :
    absorb h t k d = compress (chain h t k d) (blockWords (d.drop (64 * k))) (t + d.length) true := by
  induction k generalizing h t d with
  | zero => simp [absorb, chain]
  | succ k ih =>
      have hlen : t + 64 + (d.length - 64) = t + d.length := by omega
      have hoff : 64 + 64 * k = 64 * (k + 1) := by omega
      rw [absorb, chain, ih _ _ _ (by rw [List.length_drop]; omega), List.drop_drop,
        List.length_drop, hlen, hoff]

/-- The last of the full blocks is compressed last. -/
theorem chain_succ (h : Vector UInt32 8) (t k : Nat) (d : List UInt8) :
    chain h t (k + 1) d =
      compress (chain h t k d) (blockWords ((d.drop (64 * k)).take 64)) (t + 64 * (k + 1)) false := by
  induction k generalizing h t d with
  | zero => simp [chain]
  | succ k ih =>
      have hoff : 64 + 64 * k = 64 * (k + 1) := by omega
      have ht : t + 64 + 64 * (k + 1) = t + 64 * (k + 1 + 1) := by omega
      rw [chain, ih, chain, List.drop_drop, hoff, ht]

/-- Later bytes do not change the blocks already compressed. -/
theorem chain_append (h : Vector UInt32 8) (t k : Nat) (d x : List UInt8)
    (hk : 64 * k ≤ d.length) : chain h t k (d ++ x) = chain h t k d := by
  induction k generalizing h t d with
  | zero => rfl
  | succ k ih =>
      rw [chain, chain, List.take_append_of_le_length (by omega),
        List.drop_append_of_le_length (by omega), ih _ _ _ (by rw [List.length_drop]; omega)]

end Blake2s
