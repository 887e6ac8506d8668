import C64WireGuard.Blake2s
import C64WireGuard.Lib.Noise

/-!
# `blake2s_kdf.s`: HMAC and the key derivation

Every hash here is initialised from the parameter cells, so the results are HMAC and HKDF when the
cells hold `(b2s_out_len, b2s_key_len) = (32, 0)`, which is `Unkeyed`. The inputs of `kdf_1` to
`kdf_3` are passed as bytes: no caller's input overlaps the pads or the hash cells.
-/

namespace C64WireGuard

open Bytes Blake2s

/-! ## The subroutines -/

/-- `hmac_blake2s`. The key is no longer than the pads. -/
def hmacBlake2s {n : Nat} (key : Bytes n) (data : List UInt8) (m : CryptoMem) : CryptoMem :=
  let pad := copyIn (zero 64) 0 key
  let m := { m with
    hmacIpad := tabulate 64 fun i => byte pad i ^^^ 0x36
    hmacOpad := tabulate 64 fun i => byte pad i ^^^ 0x5c }
  let m := { m with b2s := blake2sHash .hmacBlake2s [m.hmacIpad.toList, data] m.b2s }
  let m := { m with hmacInnerHash := m.b2s.b2sHash }
  { m with b2s := blake2sHash .hmacBlake2s [m.hmacOpad.toList, m.hmacInnerHash.toList] m.b2s }

/-- `kdf_1`. The chaining key is in `kdf_prk`. -/
def kdf1 (input : List UInt8) (m : CryptoMem) : CryptoMem :=
  let m := hmacBlake2s m.kdfPrk input m
  let m := { m with kdfPrk := m.b2s.b2sHash }
  let m := hmacBlake2s m.kdfPrk [1] m
  { m with kdfOut1 := m.b2s.b2sHash }

/-- `kdf_2`. -/
def kdf2 (input : List UInt8) (m : CryptoMem) : CryptoMem :=
  let m := kdf1 input m
  let m := { m with kdfHmacBuf := put (copyIn m.kdfHmacBuf 0 m.kdfOut1) 32 2 }
  let m := hmacBlake2s m.kdfPrk m.kdfHmacBuf.toList m
  { m with kdfOut2 := m.b2s.b2sHash }

/-- `kdf_3`. -/
def kdf3 (input : List UInt8) (m : CryptoMem) : CryptoMem :=
  let m := kdf2 input m
  let m := { m with kdfHmacBuf := put (copyIn m.kdfHmacBuf 0 m.kdfOut2) 32 3 }
  let m := hmacBlake2s m.kdfPrk m.kdfHmacBuf.toList m
  { m with kdfOut3 := m.b2s.b2sHash }

/-! ## Unkeyed hashing -/

/-- The parameter cells hold the convention every unkeyed caller relies on. -/
def Unkeyed (s : B2s) : Prop := s.b2sOutLen = 32 ∧ s.b2sKeyLen = 0

/-- BLAKE2s-256. -/
def blake2s256 (msg : List UInt8) : Bytes 32 := digest 32 [] msg

/-- An unkeyed hash leaves BLAKE2s-256 of its chunks, and the convention. -/
theorem blake2sHash_unkeyed (site : HashSite) (chunks : List (List UInt8)) {s : B2s} (h : Unkeyed s) :
    (blake2sHash site chunks s).b2sHash = blake2s256 chunks.flatten ∧ Unkeyed (blake2sHash site chunks s) := by
  obtain ⟨hout, hkey⟩ := h
  obtain ⟨hout', hkey', -⟩ := blake2sHash_params site chunks s
  refine ⟨?_, by rw [hout', hout], by rw [hkey', hkey]⟩
  have hspec := blake2sHash_spec site chunks s (by rw [hkey]; decide)
  have hnil : b2sKey s = [] := by
    rw [b2sKey, hkey]
    exact List.eq_nil_of_length_eq_zero (by simp)
  rw [hspec, hnil, hout]
  exact copyIn_zero_full _ _

theorem toList_hmacPad {n : Nat} (key : Bytes n) (mask : UInt8) :
    (tabulate 64 fun i => byte (copyIn (zero 64) 0 key) i ^^^ mask).toList =
      Noise.hmacPad key mask := by
  rw [Noise.hmacPad, toList_inj]
  apply ext_byte
  intro i hi
  simp only [byte_tabulate, if_pos hi, byte_copyIn, byte_zero, Nat.zero_le, true_and, Nat.zero_add,
    Nat.sub_zero]
  by_cases h : i < n
  · rw [if_pos ⟨h, hi⟩]
  · rw [if_neg (fun hc => h hc.1), byte_of_ge key (by omega)]

/-- The cells of the key derivation itself. -/
def CryptoMem.kdf (m : CryptoMem) : Bytes 32 × Bytes 32 × Bytes 32 × Bytes 32 × Bytes 33 :=
  (m.kdfPrk, m.kdfOut1, m.kdfOut2, m.kdfOut3, m.kdfHmacBuf)

/-- `hmac_blake2s` is HMAC-BLAKE2s, and leaves the cells of the key derivation alone. -/
theorem hmacBlake2s_spec {n : Nat} (key : Bytes n) (data : List UInt8) {m : CryptoMem}
    (h : Unkeyed m.b2s) :
    (hmacBlake2s key data m).b2s.b2sHash = Noise.hmac blake2s256 key data ∧
      Unkeyed (hmacBlake2s key data m).b2s ∧ (hmacBlake2s key data m).kdf = m.kdf := by
  obtain ⟨hin, hun⟩ := blake2sHash_unkeyed .hmacBlake2s [Noise.hmacPad key 0x36, data] h
  obtain ⟨hout, hun'⟩ := blake2sHash_unkeyed .hmacBlake2s
    [Noise.hmacPad key 0x5c, (blake2s256 [Noise.hmacPad key 0x36, data].flatten).toList] hun
  have hcells : (hmacBlake2s key data m).b2s =
      blake2sHash .hmacBlake2s [Noise.hmacPad key 0x5c,
        (blake2s256 [Noise.hmacPad key 0x36, data].flatten).toList]
        (blake2sHash .hmacBlake2s [Noise.hmacPad key 0x36, data] m.b2s) := by
    simp only [hmacBlake2s, toList_hmacPad, hin]
  refine ⟨?_, ?_, ?_⟩
  · rw [hcells, hout]
    simp only [Noise.hmac, List.flatten_cons, List.flatten_nil, List.append_nil]
  · rw [hcells]
    exact hun'
  · simp only [hmacBlake2s, CryptoMem.kdf]

/-! ## HKDF -/

/-- `kdf_1` leaves the first output, and the pseudo-random key for further ones. -/
theorem kdf1_spec (input : List UInt8) {m : CryptoMem} (h : Unkeyed m.b2s) :
    (kdf1 input m).kdfOut1 = (Noise.hkdf blake2s256 m.kdfPrk input).1 ∧
      (kdf1 input m).kdfPrk = Noise.hmac blake2s256 m.kdfPrk input ∧
      Unkeyed (kdf1 input m).b2s ∧
      (kdf1 input m).kdfOut2 = m.kdfOut2 ∧ (kdf1 input m).kdfOut3 = m.kdfOut3 := by
  obtain ⟨hprk, hun, hframe⟩ := hmacBlake2s_spec m.kdfPrk input h
  rw [kdf1]
  generalize hmacBlake2s m.kdfPrk input m = a at *
  obtain ⟨hout, hun', hframe'⟩ :=
    hmacBlake2s_spec a.b2s.b2sHash [1] (m := { a with kdfPrk := a.b2s.b2sHash }) hun
  generalize hmacBlake2s a.b2s.b2sHash [1] { a with kdfPrk := a.b2s.b2sHash } = b at *
  simp only [CryptoMem.kdf, Prod.mk.injEq] at hframe hframe'
  refine ⟨?_, ?_, hun', ?_, ?_⟩
  · rw [hout, hprk, Noise.hkdf]
  · rw [hframe'.1, hprk]
  · rw [hframe'.2.2.1, hframe.2.2.1]
  · rw [hframe'.2.2.2.1, hframe.2.2.2.1]

theorem toList_put_copyIn (buf : Bytes 33) (t : Bytes 32) (v : UInt8) :
    (put (copyIn buf 0 t) 32 v).toList = t.toList ++ [v] := by
  have h := toList_ofList (n := 33) (l := t.toList ++ [v]) (by simp)
  rw [← h, toList_inj]
  apply ext_byte
  intro i hi
  rw [byte_put, byte_copyIn, byte_ofList, if_pos hi, List.getD_eq_getElem?_getD]
  by_cases hi32 : i = 32
  · subst hi32
    rw [if_pos ⟨rfl, hi⟩, List.getElem?_append_right (by simp)]
    simp
  · rw [if_neg (fun hc => hi32 hc.1), if_pos ⟨Nat.zero_le _, by omega, hi⟩,
      List.getElem?_append_left (by simp; omega), ← List.getD_eq_getElem?_getD, getD_toList,
      Nat.sub_zero]

/-- `kdf_2` leaves the first two outputs. -/
theorem kdf2_spec (input : List UInt8) {m : CryptoMem} (h : Unkeyed m.b2s) :
    (kdf2 input m).kdfOut1 = (Noise.hkdf blake2s256 m.kdfPrk input).1 ∧
      (kdf2 input m).kdfOut2 = (Noise.hkdf blake2s256 m.kdfPrk input).2.1 ∧
      (kdf2 input m).kdfPrk = Noise.hmac blake2s256 m.kdfPrk input ∧
      Unkeyed (kdf2 input m).b2s ∧ (kdf2 input m).kdfOut3 = m.kdfOut3 := by
  obtain ⟨h₁, hprk, hun, -, h₃⟩ := kdf1_spec input h
  rw [kdf2]
  generalize kdf1 input m = a at *
  obtain ⟨hout, hun', hframe⟩ := hmacBlake2s_spec a.kdfPrk (a.kdfOut1.toList ++ [2])
    (m := { a with kdfHmacBuf := put (copyIn a.kdfHmacBuf 0 a.kdfOut1) 32 2 }) hun
  simp only [toList_put_copyIn]
  generalize hmacBlake2s a.kdfPrk (a.kdfOut1.toList ++ [2])
    { a with kdfHmacBuf := put (copyIn a.kdfHmacBuf 0 a.kdfOut1) 32 2 } = b at *
  simp only [CryptoMem.kdf, Prod.mk.injEq] at hframe
  refine ⟨?_, ?_, ?_, hun', ?_⟩
  · rw [hframe.2.1, h₁]
  · rw [hout, hprk, h₁, Noise.hkdf]
  · rw [hframe.1, hprk]
  · rw [hframe.2.2.2.1, h₃]

/-- `kdf_3` leaves all three. -/
theorem kdf3_spec (input : List UInt8) {m : CryptoMem} (h : Unkeyed m.b2s) :
    (kdf3 input m).kdfOut1 = (Noise.hkdf blake2s256 m.kdfPrk input).1 ∧
      (kdf3 input m).kdfOut2 = (Noise.hkdf blake2s256 m.kdfPrk input).2.1 ∧
      (kdf3 input m).kdfOut3 = (Noise.hkdf blake2s256 m.kdfPrk input).2.2 ∧
      Unkeyed (kdf3 input m).b2s := by
  obtain ⟨h₁, h₂, hprk, hun, -⟩ := kdf2_spec input h
  rw [kdf3]
  generalize kdf2 input m = a at *
  obtain ⟨hout, hun', hframe⟩ := hmacBlake2s_spec a.kdfPrk (a.kdfOut2.toList ++ [3])
    (m := { a with kdfHmacBuf := put (copyIn a.kdfHmacBuf 0 a.kdfOut2) 32 3 }) hun
  simp only [toList_put_copyIn]
  generalize hmacBlake2s a.kdfPrk (a.kdfOut2.toList ++ [3])
    { a with kdfHmacBuf := put (copyIn a.kdfHmacBuf 0 a.kdfOut2) 32 3 } = b at *
  simp only [CryptoMem.kdf, Prod.mk.injEq] at hframe
  refine ⟨?_, ?_, ?_, hun'⟩
  · rw [hframe.2.1, h₁]
  · rw [hframe.2.2.1, h₂]
  · rw [hout, hprk, h₂, Noise.hkdf]

/-- **HMAC and HKDF are computed**, under the convention of the parameter cells: `hmac_blake2s` for
every key no longer than a block, `kdf_1` to `kdf_3` for every chaining key and input, the cells of
the handshake included. The outputs a routine does not produce stay as they were. -/
theorem kdf_outputs {m : CryptoMem} (h : Unkeyed m.b2s) :
    (∀ {n : Nat} (key : Bytes n) (data : List UInt8), n ≤ 64 →
      (hmacBlake2s key data m).b2s.b2sHash = Noise.hmac blake2s256 key data) ∧
    ∀ input : List UInt8,
      let prk := Noise.hmac blake2s256 m.kdfPrk input
      let t₁ := Noise.hmac blake2s256 prk [1]
      let t₂ := Noise.hmac blake2s256 prk (t₁.toList ++ [2])
      let t₃ := Noise.hmac blake2s256 prk (t₂.toList ++ [3])
      ((kdf1 input m).kdfOut1 = t₁ ∧ (kdf1 input m).kdfOut2 = m.kdfOut2 ∧
        (kdf1 input m).kdfOut3 = m.kdfOut3) ∧
      ((kdf2 input m).kdfOut1 = t₁ ∧ (kdf2 input m).kdfOut2 = t₂ ∧
        (kdf2 input m).kdfOut3 = m.kdfOut3) ∧
      (kdf3 input m).kdfOut1 = t₁ ∧ (kdf3 input m).kdfOut2 = t₂ ∧
        (kdf3 input m).kdfOut3 = t₃ := by
  refine ⟨fun key data _ => (hmacBlake2s_spec key data h).1, fun input => ?_⟩
  obtain ⟨h₁, -, -, hkeep₂, hkeep₃⟩ := kdf1_spec input h
  obtain ⟨h₁', h₂', -, -, hkeep₃'⟩ := kdf2_spec input h
  obtain ⟨h₁'', h₂'', h₃'', -⟩ := kdf3_spec input h
  exact ⟨⟨h₁, hkeep₂, hkeep₃⟩, ⟨h₁', h₂', hkeep₃'⟩, h₁'', h₂'', h₃''⟩

theorem kdf_outputs_start :
    (hmacBlake2s (#v[1, 2] : Bytes 2) [3] (CryptoMem.start 0)).b2s.b2sHash =
      Noise.hmac blake2s256 (#v[1, 2] : Bytes 2) [3] :=
  (kdf_outputs (m := .start 0) ⟨rfl, rfl⟩).1 _ _ (by decide)

end C64WireGuard
