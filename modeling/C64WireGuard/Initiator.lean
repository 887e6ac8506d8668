import C64WireGuard.Handshake

/-!
# The initiator refines Noise

`c64Suite` instantiates `Lib.Noise` with the hash this image contains and the primitives it is
linked against. Every step of `handshake.s` is then one operation of the framework on
`(hs_c, hs_h)`; what else it writes is crypto scratch that no later step reads. Two results sum this
up, both under the convention `(b2s_out_len, b2s_key_len) = (32, 0)`:

* `hsCreateInitiation_spec` — `hs_packet` holds `writeMessage1` framed by header and MACs;
* `hsProcessResponse_spec` — the verdict is that of `readMessage2`, and the keys are its `split`.
-/

namespace C64WireGuard

open Bytes Blake2s

/-! ## The suite -/

/-- The primitives of the handshake. Where `aead_encrypt` would refuse, the suite seals nothing. -/
def c64Suite (p : Primitives) : Noise.Suite where
  hash := blake2s256
  dh priv pub := p.x25519Scalarmult (p.x25519Clamp priv) pub
  pub := p.x25519Base
  aeadSeal key ad pt :=
    match p.aeadEncrypt key (zero 12) ad (ofList pt.length pt) with
    | none => []
    | some (ciphertext, tag) => ciphertext.toList ++ tag.toList
  aeadOpen key ad c :=
    let r := p.aeadDecrypt key (zero 12) ad (ofList (c.length - 16) c)
      (ofList 16 (c.drop (c.length - 16)))
    if 16 ≤ c.length ∧ r.1 = true then some r.2.toList else none

/-- `aead_encrypt` accepts what a handshake encrypts. -/
def AeadAccepts (p : Primitives) : Prop :=
  ∀ (key : Bytes 32) (nonce : Bytes 12) (ad : List UInt8) {n : Nat} (data : Bytes n), n ≤ 32 →
    (p.aeadEncrypt key nonce ad data).isSome

/-- `aead_decrypt` recovers what `aead_encrypt` encrypted. -/
def AeadInverts (p : Primitives) : Prop :=
  ∀ (key : Bytes 32) (nonce : Bytes 12) (ad : List UInt8) {n : Nat} (data c : Bytes n)
    (tag : Bytes 16), p.aeadEncrypt key nonce ad data = some (c, tag) →
    p.aeadDecrypt key nonce ad c tag = (true, data)

variable {p : Primitives}

/-- An accepted encryption in the suite's terms. -/
theorem aeadSeal_eq {key : Bytes 32} {ad : List UInt8} {n : Nat} {data c : Bytes n}
    {tag : Bytes 16} (h : p.aeadEncrypt key (zero 12) ad data = some (c, tag)) :
    (c64Suite p).aeadSeal key ad data.toList = c.toList ++ tag.toList := by
  have hcast : ∀ (l : List UInt8), l.length = n → ofList n l = data →
      (c64Suite p).aeadSeal key ad l = c.toList ++ tag.toList := by
    intro l hl hd
    subst hl hd
    simp only [c64Suite, h]
  exact hcast _ (by simp) (ofList_toList data)

theorem aeadOpen_eq (p : Primitives) (key : Bytes 32) (ad : List UInt8) {n : Nat} (c : Bytes n)
    (tag : Bytes 16) :
    (c64Suite p).aeadOpen key ad (c.toList ++ tag.toList) =
      if (p.aeadDecrypt key (zero 12) ad c tag).1 = true then
        some (p.aeadDecrypt key (zero 12) ad c tag).2.toList
      else none := by
  have hcast : ∀ (k : Nat), k = n → ∀ l : List UInt8, l.length = k + 16 → ofList n l = c →
      ofList 16 (l.drop n) = tag →
      (c64Suite p).aeadOpen key ad l =
        if (p.aeadDecrypt key (zero 12) ad c tag).1 = true then
          some (p.aeadDecrypt key (zero 12) ad c tag).2.toList
        else none := by
    intro k hk l hl hc ht
    have hk' : n = l.length - 16 := by omega
    subst hk'
    have h16 : 16 ≤ l.length := by omega
    simp only [c64Suite, hc, ht, h16, true_and]
  refine hcast n rfl _ (by simp) ?_ ?_
  · apply ext_byte
    intro i hi
    rw [byte_ofList, if_pos hi, List.getD_eq_getElem?_getD, List.getElem?_append_left (by simpa),
      ← List.getD_eq_getElem?_getD, getD_toList]
  · rw [List.drop_append_of_le_length (by simp), List.drop_of_length_le (by simp), List.nil_append,
      ofList_toList]

/-- What a handshake seals grows by the tag. -/
theorem aeadSeal_length (ha : AeadAccepts p) (key : Bytes 32) (ad pt : List UInt8)
    (hpt : pt.length ≤ 32) : ((c64Suite p).aeadSeal key ad pt).length = pt.length + 16 := by
  obtain ⟨⟨c, tag⟩, h⟩ :=
    Option.isSome_iff_exists.mp (ha key (zero 12) ad (ofList pt.length pt) hpt)
  have hs := aeadSeal_eq h
  rw [toList_ofList rfl] at hs
  rw [hs]
  simp

/-- A correct AEAD makes the suite correct. -/
theorem c64Suite_correct (ha : AeadAccepts p) (hi : AeadInverts p) : (c64Suite p).Correct := by
  refine ⟨?_, aeadSeal_length ha⟩
  intro k ad pt hpt
  obtain ⟨⟨c, tag⟩, h⟩ :=
    Option.isSome_iff_exists.mp (ha k (zero 12) ad (ofList pt.length pt) hpt)
  have hs := aeadSeal_eq h
  rw [toList_ofList rfl] at hs
  rw [hs, aeadOpen_eq, hi _ _ _ _ _ _ h, if_pos rfl, toList_ofList rfl]

/-! ## One step at a time -/

/-- `(hs_c, hs_h)`. -/
def HsMem.symmetric (m : HsMem) : Noise.Symmetric where
  ck := m.hsC
  h := m.hsH

/-- All a step of the handshake writes: scratch, `hs_dh_result`, `(hs_c, hs_h)` and `hs_packet`. -/
def HsMem.write (m : HsMem) (scratch : CryptoMem) (dh : Bytes 32) (s : Noise.Symmetric)
    (packet : Bytes 148) : HsMem :=
  { m with toCryptoMem := scratch, hsDhResult := dh, hsC := s.ck, hsH := s.h, hsPacket := packet }

@[simp] theorem HsMem.symmetric_write (m : HsMem) (cm : CryptoMem) (dh : Bytes 32)
    (s : Noise.Symmetric) (pkt : Bytes 148) : (m.write cm dh s pkt).symmetric = s := rfl

@[simp] theorem HsMem.write_write (m : HsMem) (cm cm' : CryptoMem) (dh dh' : Bytes 32)
    (s s' : Noise.Symmetric) (pkt pkt' : Bytes 148) :
    (m.write cm dh s pkt).write cm' dh' s' pkt' = m.write cm' dh' s' pkt' := rfl

section Write

variable (m : HsMem) (cm : CryptoMem) (dh : Bytes 32) (s : Noise.Symmetric) (pkt : Bytes 148)

@[simp] theorem HsMem.toCryptoMem_write : (m.write cm dh s pkt).toCryptoMem = cm := rfl

@[simp] theorem HsMem.hsPacket_write : (m.write cm dh s pkt).hsPacket = pkt := rfl

@[simp] theorem HsMem.hsDhResult_write : (m.write cm dh s pkt).hsDhResult = dh := rfl

@[simp] theorem HsMem.hsC_write : (m.write cm dh s pkt).hsC = s.ck := rfl

@[simp] theorem HsMem.hsStaticPriv_write : (m.write cm dh s pkt).hsStaticPriv = m.hsStaticPriv := rfl

@[simp] theorem HsMem.hsStaticPub_write : (m.write cm dh s pkt).hsStaticPub = m.hsStaticPub := rfl

@[simp] theorem HsMem.hsRespPub_write : (m.write cm dh s pkt).hsRespPub = m.hsRespPub := rfl

@[simp] theorem HsMem.hsEphemPriv_write : (m.write cm dh s pkt).hsEphemPriv = m.hsEphemPriv := rfl

@[simp] theorem HsMem.hsEphemPub_write : (m.write cm dh s pkt).hsEphemPub = m.hsEphemPub := rfl

@[simp] theorem HsMem.hsTimestamp_write : (m.write cm dh s pkt).hsTimestamp = m.hsTimestamp := rfl

@[simp] theorem HsMem.hsPresharedKey_write :
    (m.write cm dh s pkt).hsPresharedKey = m.hsPresharedKey := rfl

@[simp] theorem HsMem.hsRespPacket_write :
    (m.write cm dh s pkt).hsRespPacket = m.hsRespPacket := rfl

@[simp] theorem respEphemeral_write : respEphemeral (m.write cm dh s pkt) = respEphemeral m := rfl

end Write

/-- `hs_mix_hash` is `MixHash`, whatever the parameter cells held. -/
theorem hsMixHash_spec (p : Primitives) (data : List UInt8) (m : HsMem) :
    ∃ cm : CryptoMem,
      hsMixHash data m =
        m.write cm m.hsDhResult (Noise.mixHash (c64Suite p) m.symmetric data) m.hsPacket ∧
      Unkeyed cm.b2s ∧ cm.kdf = m.kdf := by
  obtain ⟨hhash, hun⟩ := blake2sHash_unkeyed .hsMixHash [m.hsH.toList, data]
    (s := { m.b2s with b2sOutLen := 32, b2sKeyLen := 0 }) ⟨rfl, rfl⟩
  rw [List.flatten_cons, List.flatten_cons, List.flatten_nil, List.append_nil] at hhash
  refine ⟨{ m.toCryptoMem with
    b2s := blake2sHash .hsMixHash [m.hsH.toList, data] { m.b2s with b2sOutLen := 32, b2sKeyLen := 0 } },
    ?_, hun, rfl⟩
  simp only [hsMixHash, hhash]
  rfl

/-- A key derivation under the convention: its first output, and the convention again. -/
def Derives (kdf : List UInt8 → CryptoMem → CryptoMem) : Prop :=
  ∀ (input : List UInt8) (m : CryptoMem), Unkeyed m.b2s →
    (kdf input m).kdfOut1 = (Noise.hkdf blake2s256 m.kdfPrk input).1 ∧ Unkeyed (kdf input m).b2s

theorem derives_kdf1 : Derives kdf1 := fun input _ h =>
  ⟨(kdf1_spec input h).1, (kdf1_spec input h).2.2.1⟩

theorem derives_kdf2 : Derives kdf2 := fun input _ h =>
  ⟨(kdf2_spec input h).1, (kdf2_spec input h).2.2.2.1⟩

theorem derives_kdf3 : Derives kdf3 := fun input _ h =>
  ⟨(kdf3_spec input h).1, (kdf3_spec input h).2.2.2⟩

/-- The key-derivation pattern is `MixKey`. Its further outputs are those of the derivation from
`hs_c`. -/
theorem hsMixKey_spec (p : Primitives) {kdf : List UInt8 → CryptoMem → CryptoMem}
    (hk : Derives kdf) (input : List UInt8) {m : HsMem} (hu : Unkeyed m.b2s) :
    ∃ cm : CryptoMem,
      hsMixKey kdf input m =
        m.write (kdf input cm) m.hsDhResult (Noise.mixKey (c64Suite p) m.symmetric input).1
          m.hsPacket ∧
      cm.kdfPrk = m.hsC ∧ Unkeyed cm.b2s := by
  obtain ⟨hout, -⟩ := hk input { m.toCryptoMem with kdfPrk := m.hsC } hu
  refine ⟨{ m.toCryptoMem with kdfPrk := m.hsC }, ?_, rfl, hu⟩
  simp only [hsMixKey, hout]
  rfl

/-- The same, from a shared secret. -/
theorem hsMixDh_spec (p : Primitives) {kdf : List UInt8 → CryptoMem → CryptoMem}
    (hk : Derives kdf) (priv pub : Bytes 32) {m : HsMem} (hu : Unkeyed m.b2s) :
    ∃ cm : CryptoMem,
      hsMixDh p kdf priv pub m =
        m.write (kdf ((c64Suite p).dh priv pub).toList cm) ((c64Suite p).dh priv pub)
          (Noise.mixKey (c64Suite p) m.symmetric ((c64Suite p).dh priv pub).toList).1 m.hsPacket ∧
      cm.kdfPrk = m.hsC ∧ Unkeyed cm.b2s := by
  obtain ⟨cm, heq, hprk, hun⟩ := hsMixKey_spec p hk ((c64Suite p).dh priv pub).toList
    (m := hsDh p priv pub m) hu
  refine ⟨cm, ?_, hprk, hun⟩
  have hdh : (hsDh p priv pub m).hsDhResult = (c64Suite p).dh priv pub := rfl
  simp only [hsMixDh, hdh, heq]
  rfl

/-- Data and tag written one behind the other are one write. -/
theorem copyIn_copyIn_append {n k : Nat} (dst : Bytes n) (off : Nat) (data c : Bytes k)
    (tag : Bytes 16) :
    copyIn (copyIn (copyIn dst off data) off c) (off + k) tag =
      copyIn dst off (ofList (k + 16) (c.toList ++ tag.toList)) := by
  apply ext_byte
  intro i hi
  simp only [byte_copyIn, byte_ofList, hi, and_true, List.getD_eq_getElem?_getD]
  by_cases h₁ : off + k ≤ i ∧ i < off + k + 16
  · have hsub : i - off - k = i - (off + k) := by omega
    rw [if_pos h₁, if_pos (by omega), if_pos (by omega),
      List.getElem?_append_right (by simp; omega), ← List.getD_eq_getElem?_getD, getD_toList]
    simp only [Vector.length_toList, hsub]
  · rw [if_neg h₁]
    by_cases h₂ : off ≤ i ∧ i < off + k
    · rw [if_pos h₂, if_pos (by omega), if_pos (by omega),
        List.getElem?_append_left (by simp; omega), ← List.getD_eq_getElem?_getD, getD_toList]
    · rw [if_neg h₂, if_neg h₂, if_neg (by omega)]

/-- The in-place encryption is `EncryptAndHash` with the key in `kdf_out2`. -/
theorem hsEncrypt_spec (ha : AeadAccepts p) {off n : Nat} (hoff : off + (n + 16) ≤ 148)
    (hn : n ≤ 32) (data : Bytes n) (m : HsMem) :
    ∃ cm : CryptoMem,
      hsEncrypt p off data m =
        m.write cm m.hsDhResult
          (Noise.encryptAndHash (c64Suite p) m.symmetric m.kdfOut2 data.toList).1
          (copyIn m.hsPacket off
            (ofList (n + 16)
              (Noise.encryptAndHash (c64Suite p) m.symmetric m.kdfOut2 data.toList).2)) ∧
      Unkeyed cm.b2s := by
  obtain ⟨⟨c, tag⟩, henc⟩ := Option.isSome_iff_exists.mp (ha m.kdfOut2 (zero 12) m.hsH.toList data hn)
  have hdata : slice (copyIn m.hsPacket off data) off n = data :=
    slice_copyIn_self _ _ (by omega)
  have hseal := aeadSeal_eq henc
  have hread : (slice (copyIn m.hsPacket off (ofList (n + 16) (c.toList ++ tag.toList))) off
      (n + 16)).toList = c.toList ++ tag.toList := by
    rw [slice_copyIn_self _ _ hoff, toList_ofList (by simp)]
  simp only [hsEncrypt, hdata, henc, copyIn_copyIn_append, hread]
  obtain ⟨cm, heq, hun, -⟩ := hsMixHash_spec p (c.toList ++ tag.toList)
    { m with
      aeadKey := m.kdfOut2
      aeadNonce := zero 12
      poly1305Tag := tag
      hsPacket := copyIn m.hsPacket off (ofList (n + 16) (c.toList ++ tag.toList)) }
  refine ⟨cm, ?_, hun⟩
  rw [heq]
  simp only [Noise.encryptAndHash, HsMem.symmetric, hseal]
  rfl

theorem encryptAndHash_length (ha : AeadAccepts p) (s : Noise.Symmetric) (k : Bytes 32)
    {pt : List UInt8} (hpt : pt.length ≤ 32) :
    (Noise.encryptAndHash (c64Suite p) s k pt).2.length = pt.length + 16 :=
  aeadSeal_length ha _ _ _ hpt

@[simp] theorem hsMixDh_hsStaticPub (p : Primitives) (kdf : List UInt8 → CryptoMem → CryptoMem)
    (priv pub : Bytes 32) (m : HsMem) : (hsMixDh p kdf priv pub m).hsStaticPub = m.hsStaticPub :=
  rfl

@[simp] theorem hsMixDh_hsTimestamp (p : Primitives) (kdf : List UInt8 → CryptoMem → CryptoMem)
    (priv pub : Bytes 32) (m : HsMem) : (hsMixDh p kdf priv pub m).hsTimestamp = m.hsTimestamp :=
  rfl

/-- A shared secret mixed in, and data encrypted under the key it gives. -/
theorem hsEncrypt_hsMixDh_spec (ha : AeadAccepts p) (priv pub : Bytes 32) {off n : Nat}
    (hoff : off + (n + 16) ≤ 148) (hn : n ≤ 32) (data : Bytes n) {m : HsMem} (hu : Unkeyed m.b2s) :
    let k := Noise.mixKey (c64Suite p) m.symmetric ((c64Suite p).dh priv pub).toList
    let e := Noise.encryptAndHash (c64Suite p) k.1 k.2 data.toList
    ∃ cm : CryptoMem,
      hsEncrypt p off data (hsMixDh p kdf2 priv pub m) =
        m.write cm ((c64Suite p).dh priv pub) e.1 (copyIn m.hsPacket off (ofList (n + 16) e.2)) ∧
      Unkeyed cm.b2s := by
  intro k e
  obtain ⟨c, h, hprk, hun⟩ := hsMixDh_spec p derives_kdf2 priv pub hu
  obtain ⟨-, hkey, -⟩ := kdf2_spec ((c64Suite p).dh priv pub).toList hun
  obtain ⟨cm, henc, hun'⟩ := hsEncrypt_spec ha hoff hn data (hsMixDh p kdf2 priv pub m)
  refine ⟨cm, ?_, hun'⟩
  rw [henc, h]
  simp only [HsMem.write_write, HsMem.symmetric_write, HsMem.hsPacket_write, HsMem.hsDhResult_write,
    HsMem.toCryptoMem_write, hkey, hprk]
  rfl

/-! ## The initiation -/

/-- `"Noise_IKpsk2_25519_ChaChaPoly_BLAKE2s"`. -/
def construction : List UInt8 :=
  [0x4e, 0x6f, 0x69, 0x73, 0x65, 0x5f, 0x49, 0x4b, 0x70, 0x73, 0x6b, 0x32, 0x5f, 0x32, 0x35, 0x35,
    0x31, 0x39, 0x5f, 0x43, 0x68, 0x61, 0x43, 0x68, 0x61, 0x50, 0x6f, 0x6c, 0x79, 0x5f, 0x42, 0x4c,
    0x41, 0x4b, 0x45, 0x32, 0x73]

/-- `"WireGuard v1 zx2c4 Jason@zx2c4.com"`. -/
def identifier : List UInt8 :=
  [0x57, 0x69, 0x72, 0x65, 0x47, 0x75, 0x61, 0x72, 0x64, 0x20, 0x76, 0x31, 0x20, 0x7a, 0x78, 0x32,
    0x63, 0x34, 0x20, 0x4a, 0x61, 0x73, 0x6f, 0x6e, 0x40, 0x7a, 0x78, 0x32, 0x63, 0x34, 0x2e, 0x63,
    0x6f, 0x6d]

theorem wgCInit_eq : wgCInit = blake2s256 construction := by
  decide +kernel

theorem wgHInit_eq : wgHInit = blake2s256 (wgCInit.toList ++ identifier) := by
  decide +kernel

/-- The key of MAC1 for packets to the holder of `pub`. -/
def mac1Key (pub : Bytes 32) : Bytes 32 := blake2s256 (wgMac1Label ++ pub.toList)

/-- Noise's state before the first message. -/
def initialState (p : Primitives) (rs : Bytes 32) : Noise.Symmetric :=
  Noise.initSymmetric (c64Suite p) construction identifier rs

/-- `hs_init` is `Initialize`. -/
theorem hsInit_spec (p : Primitives) {m : HsMem} (hu : Unkeyed m.b2s) :
    ∃ cm : CryptoMem,
      hsInit m =
        { m.write cm m.hsDhResult (initialState p m.hsRespPub) m.hsPacket with
          hsMac1Key := mac1Key m.hsRespPub } ∧
      Unkeyed cm.b2s := by
  obtain ⟨hh, hun⟩ := blake2sHash_unkeyed .hsInit [wgHInit.toList, m.hsRespPub.toList] hu
  obtain ⟨hmac, hun'⟩ := blake2sHash_unkeyed .hsInit [wgMac1Label, m.hsRespPub.toList] hun
  rw [List.flatten_cons, List.flatten_cons, List.flatten_nil, List.append_nil] at hh hmac
  have hinit : initialState p m.hsRespPub =
      { ck := wgCInit, h := blake2s256 (wgHInit.toList ++ m.hsRespPub.toList) } := by
    rw [wgHInit_eq, wgCInit_eq]
    rfl
  refine ⟨{ m.toCryptoMem with
    b2s := blake2sHash .hsInit [wgMac1Label, m.hsRespPub.toList]
      (blake2sHash .hsInit [wgHInit.toList, m.hsRespPub.toList] m.b2s) }, ?_, hun'⟩
  rw [hinit]
  simp only [hsInit, hh, hmac, HsMem.write, mac1Key]

/-- A MAC is the keyed digest of 16 bytes, and leaves the convention. -/
theorem keyedMac_spec (site : HashSite) {k : Nat} (hk : k ≤ 64) (key : Bytes k) (data : List UInt8) (s : B2s) :
    slice (keyedMac site key data s).b2sHash 0 16 = digest 16 key.toList data ∧
      Unkeyed (keyedMac site key data s) := by
  refine ⟨?_, rfl, rfl⟩
  have hlen : (UInt8.ofNat k).toNat = k := by
    rw [UInt8.toNat_ofNat']
    omega
  have hkey : b2sKey { s with
      inputBuffer := copyIn s.inputBuffer 0 key
      b2sKeyLen := UInt8.ofNat k
      b2sOutLen := 16 } = key.toList := by
    rw [b2sKey, toList_slice _ (by simp only [hlen]; omega), hlen,
      ← toList_slice _ (by omega), slice_copyIn_self _ _ (by omega)]
  have hspec := blake2sHash_spec site [data]
    { s with
      inputBuffer := copyIn s.inputBuffer 0 key
      b2sKeyLen := UInt8.ofNat k
      b2sOutLen := 16 }
    (by simp only [hlen]; omega)
  rw [hkey, List.flatten_cons, List.flatten_nil, List.append_nil] at hspec
  simp only [keyedMac, hspec]
  exact slice_copyIn_self _ _ (by decide)

/-- Writing right behind a prefix extends it. -/
theorem toList_slice_copyIn {n k l : Nat} (b : Bytes n) (src : Bytes l) (h : k + l ≤ n) :
    (slice (copyIn b k src) 0 (k + l)).toList = (slice b 0 k).toList ++ src.toList := by
  rw [toList_slice_add _ (by omega), Nat.zero_add, slice_copyIn_self _ _ h,
    slice_copyIn_disjoint _ _ (.inr (by omega))]

/-- What Noise makes of the initiator's inputs: the state after, and the message. -/
def initiation (p : Primitives) (m : HsMem) : Noise.Symmetric × List UInt8 :=
  Noise.writeMessage1 (c64Suite p) (initialState p m.hsRespPub) m.hsEphemPriv m.hsStaticPriv
    m.hsStaticPub m.hsRespPub m.hsTimestamp.toList

/-- The Type 1 packet up to its MACs. -/
def initiationBody (p : Primitives) (m : HsMem) : List UInt8 :=
  [1, 0, 0, 0] ++ m.hsSenderIdx.toList ++ (initiation p m).2

/-- MAC1 of a packet body to the holder of `pub`. -/
def mac1 (pub : Bytes 32) (body : List UInt8) : Bytes 16 := digest 16 (mac1Key pub).toList body

/-- MAC2: keyed with the cookie when there is one, else zeros. -/
def mac2 (cookieValid : Bool) (cookieBuf : Bytes 32) (body : List UInt8) : Bytes 16 :=
  if cookieValid then digest 16 (slice cookieBuf 0 16).toList body else zero 16

/-- The whole Type 1 packet. -/
def initiationPacket (p : Primitives) (m : HsMem) : List UInt8 :=
  let body := initiationBody p m
  let mac1 := (mac1 m.hsRespPub body).toList
  body ++ mac1 ++ (mac2 m.cookieValid m.cookieBuf (body ++ mac1)).toList

/-- Steps 4 to 10 write the message behind the header: the state and the packet are Noise's. -/
theorem hsWriteMessage_spec (ha : AeadAccepts p) {m : HsMem}
    (hpub : m.hsEphemPub = p.x25519Base m.hsEphemPriv)
    (hhdr : (slice m.hsPacket 0 40).toList =
      (slice m.hsPacket 0 8).toList ++ m.hsEphemPub.toList) :
    ∃ (cm : CryptoMem) (dh : Bytes 32) (pkt : Bytes 148),
      hsWriteMessage p m = m.write cm dh
        (Noise.writeMessage1 (c64Suite p) m.symmetric m.hsEphemPriv m.hsStaticPriv m.hsStaticPub
          m.hsRespPub m.hsTimestamp.toList).1 pkt ∧
      Unkeyed cm.b2s ∧
      (slice pkt 0 116).toList = (slice m.hsPacket 0 8).toList ++
        (Noise.writeMessage1 (c64Suite p) m.symmetric m.hsEphemPriv m.hsStaticPriv m.hsStaticPub
          m.hsRespPub m.hsTimestamp.toList).2 := by
  have hpub' : (c64Suite p).pub m.hsEphemPriv = m.hsEphemPub := hpub.symm
  simp only [hsWriteMessage, Noise.writeMessage1, Noise.mixEphemeral, hpub']
  -- `e`
  obtain ⟨c₁, h₁, hu₁, -⟩ := hsMixHash_spec p m.hsEphemPub.toList m
  rw [h₁]
  generalize Noise.mixHash (c64Suite p) m.symmetric m.hsEphemPub.toList = s₁
  obtain ⟨c₂, h₂, -, hu₂⟩ := hsMixKey_spec p derives_kdf1 m.hsEphemPub.toList
    (m := m.write c₁ m.hsDhResult s₁ m.hsPacket) hu₁
  simp only [HsMem.hsEphemPub_write, h₂, HsMem.write_write, HsMem.hsDhResult_write,
    HsMem.symmetric_write, HsMem.hsPacket_write]
  replace hu₂ := (derives_kdf1 m.hsEphemPub.toList c₂ hu₂).2
  generalize kdf1 m.hsEphemPub.toList c₂ = c₂ at *
  generalize (Noise.mixKey (c64Suite p) s₁ m.hsEphemPub.toList).1 = s₂
  -- `es, s`
  obtain ⟨c₃, h₃, hu₃⟩ := hsEncrypt_hsMixDh_spec ha m.hsEphemPriv m.hsRespPub
    (show 40 + (32 + 16) ≤ 148 by decide) (by decide) m.hsStaticPub (m := m.write c₂ m.hsDhResult s₂ m.hsPacket) hu₂
  simp only [HsMem.hsEphemPriv_write, HsMem.hsRespPub_write, HsMem.hsStaticPub_write,
    hsMixDh_hsStaticPub, h₃, HsMem.write_write, HsMem.symmetric_write, HsMem.hsPacket_write]
  generalize (c64Suite p).dh m.hsEphemPriv m.hsRespPub = es
  have hlen₃ := encryptAndHash_length ha (Noise.mixKey (c64Suite p) s₂ es.toList).1
    (Noise.mixKey (c64Suite p) s₂ es.toList).2 (show m.hsStaticPub.toList.length ≤ 32 by simp)
  generalize Noise.encryptAndHash (c64Suite p) (Noise.mixKey (c64Suite p) s₂ es.toList).1
    (Noise.mixKey (c64Suite p) s₂ es.toList).2 m.hsStaticPub.toList = e₃ at *
  -- `ss`, timestamp
  obtain ⟨c₄, h₄, hu₄⟩ := hsEncrypt_hsMixDh_spec ha m.hsStaticPriv m.hsRespPub
    (show 88 + (12 + 16) ≤ 148 by decide) (by decide) m.hsTimestamp
    (m := m.write c₃ es e₃.1 (copyIn m.hsPacket 40 (ofList (32 + 16) e₃.2))) hu₃
  simp only [HsMem.hsStaticPriv_write, HsMem.hsTimestamp_write,
    hsMixDh_hsTimestamp, h₄, HsMem.write_write, HsMem.symmetric_write, HsMem.hsPacket_write]
  generalize (c64Suite p).dh m.hsStaticPriv m.hsRespPub = ss
  have hlen₄ := encryptAndHash_length ha (Noise.mixKey (c64Suite p) e₃.1 ss.toList).1
    (Noise.mixKey (c64Suite p) e₃.1 ss.toList).2 (show m.hsTimestamp.toList.length ≤ 32 by simp)
  generalize Noise.encryptAndHash (c64Suite p) (Noise.mixKey (c64Suite p) e₃.1 ss.toList).1
    (Noise.mixKey (c64Suite p) e₃.1 ss.toList).2 m.hsTimestamp.toList = e₄ at *
  refine ⟨c₄, ss, _, rfl, hu₄, ?_⟩
  rw [toList_slice_copyIn (k := 88) (l := 12 + 16) _ _ (by decide),
    toList_slice_copyIn (k := 40) (l := 32 + 16) _ _ (by decide), hhdr,
    toList_ofList (by simpa using hlen₃), toList_ofList (by simpa using hlen₄)]
  simp only [List.append_assoc]

/-- Step 11 appends both MACs, arms the guard and consumes the cookie. -/
theorem hsMacs_spec (m : HsMem) :
    ∃ (cm : CryptoMem) (pkt : Bytes 148),
      hsMacs m =
        { m.write cm m.hsDhResult m.symmetric pkt with hsMac1Valid := true, cookieValid := false } ∧
      Unkeyed cm.b2s ∧
      pkt.toList =
        let body := (slice m.hsPacket 0 116).toList
        let mac := (digest 16 m.hsMac1Key.toList body).toList
        body ++ mac ++ (mac2 m.cookieValid m.cookieBuf (body ++ mac)).toList := by
  obtain ⟨hmac, hun⟩ :=
    keyedMac_spec .hsComputeMac1 (by decide) m.hsMac1Key (slice m.hsPacket 0 116).toList m.b2s
  have hall (pkt : Bytes 148) (mac : Bytes 16) :
      (copyIn pkt 132 mac).toList = (slice pkt 0 132).toList ++ mac.toList := by
    rw [← toList_slice_copyIn pkt mac (by decide), slice_self]
  set mac := digest 16 m.hsMac1Key.toList (slice m.hsPacket 0 116).toList
  set s := keyedMac .hsComputeMac1 m.hsMac1Key (slice m.hsPacket 0 116).toList m.b2s with hs
  have hbody := toList_slice_copyIn m.hsPacket (k := 116) mac (by decide)
  cases hc : m.cookieValid with
  | false =>
      refine ⟨{ m.toCryptoMem with b2s := s }, copyIn (copyIn m.hsPacket 116 mac) 132 (zero 16),
        ?_, hun, ?_⟩
      · simp only [hsMacs, hsComputeMac1, ← hs, hmac, hc]
        rfl
      · rw [hall, hbody]
        rfl
  | true =>
      obtain ⟨hmac₂, hun₂⟩ := keyedMac_spec .hsSetMac2 (by decide) (slice m.cookieBuf 0 16)
        (slice (copyIn m.hsPacket 116 mac) 0 132).toList s
      rw [hbody] at hmac₂ hun₂
      refine ⟨{ m.toCryptoMem with
          b2s := keyedMac .hsSetMac2 (slice m.cookieBuf 0 16)
            ((slice m.hsPacket 0 116).toList ++ mac.toList) s },
        copyIn (copyIn m.hsPacket 116 mac) 132
          (digest 16 (slice m.cookieBuf 0 16).toList
            ((slice m.hsPacket 0 116).toList ++ mac.toList)), ?_, hun₂, ?_⟩
      · simp only [hsMacs, hsComputeMac1, ← hs, hmac, hc, hsSetMac2, hbody, hmac₂]
        rfl
      · rw [hall, hbody]
        rfl

/-- Steps 2 and 3: the ephemeral key and the first 40 bytes of the packet. -/
theorem hsEphemeral_spec (p : Primitives) (m : HsMem) :
    ∃ (cm : CryptoMem) (pkt : Bytes 148),
      hsEphemeral p m =
        { m.write cm m.hsDhResult m.symmetric pkt with
          hsEphemPub := p.x25519Base m.hsEphemPriv } ∧
      (slice pkt 0 8).toList = [1, 0, 0, 0] ++ m.hsSenderIdx.toList ∧
      (slice pkt 0 40).toList = (slice pkt 0 8).toList ++ (p.x25519Base m.hsEphemPriv).toList := by
  refine ⟨{ m.toCryptoMem with
      x25Scalar := m.hsEphemPriv
      x25Result := p.x25519Base m.hsEphemPriv },
    copyIn (copyIn (copyIn m.hsPacket 0 (#v[1, 0, 0, 0] : Bytes 4)) 4 m.hsSenderIdx) 8
      (p.x25519Base m.hsEphemPriv), rfl, ?_, ?_⟩
  · rw [slice_copyIn_disjoint _ (p.x25519Base m.hsEphemPriv) (.inr (by decide)),
      toList_slice_copyIn (k := 4) (l := 4) _ _ (by decide), slice_copyIn_self _ _ (by decide)]
    rfl
  · rw [toList_slice_copyIn (k := 8) (l := 32) _ _ (by decide),
      slice_copyIn_disjoint _ (p.x25519Base m.hsEphemPriv) (.inr (by decide))]

/-- **The initiation is Noise's first message.** Under the convention `hs_create_initiation` leaves
`hs_packet` and `(hs_c, hs_h)` as functions of the keys, index, timestamp and cookie alone. -/
theorem hsCreateInitiation_spec (ha : AeadAccepts p) {m : HsMem} (hu : Unkeyed m.b2s) :
    ∃ (cm : CryptoMem) (dh : Bytes 32),
      hsCreateInitiation p m =
        { m.write cm dh (initiation p m).1 (ofList 148 (initiationPacket p m)) with
          hsEphemPub := p.x25519Base m.hsEphemPriv
          hsMac1Key := mac1Key m.hsRespPub
          hsMac1Valid := true
          cookieValid := false } ∧
      Unkeyed cm.b2s ∧ (initiationPacket p m).length = 148 := by
  obtain ⟨c₁, h₁, -⟩ := hsInit_spec p hu
  obtain ⟨c₂, pkt₂, h₂, hidx, hhdr⟩ := hsEphemeral_spec p (hsInit m)
  obtain ⟨c₃, dh, pkt₃, h₃, -, hpkt₃⟩ := hsWriteMessage_spec ha (m := hsEphemeral p (hsInit m))
    (by rw [h₂]; rfl) (by rw [h₂]; exact hhdr)
  obtain ⟨c₄, pkt₄, h₄, hu₄, hpkt₄⟩ := hsMacs_spec (hsWriteMessage p (hsEphemeral p (hsInit m)))
  have hmsg : Noise.writeMessage1 (c64Suite p) (hsEphemeral p (hsInit m)).symmetric
      (hsEphemeral p (hsInit m)).hsEphemPriv (hsEphemeral p (hsInit m)).hsStaticPriv
      (hsEphemeral p (hsInit m)).hsStaticPub (hsEphemeral p (hsInit m)).hsRespPub
      (hsEphemeral p (hsInit m)).hsTimestamp.toList = initiation p m := by
    rw [h₂, h₁]
    rfl
  rw [hmsg] at h₃ hpkt₃
  have hbody : (slice pkt₃ 0 116).toList = initiationBody p m := by
    rw [hpkt₃, initiationBody, h₂]
    exact congrArg (· ++ (initiation p m).2) hidx
  have hpacket : pkt₄.toList = initiationPacket p m := by
    rw [hpkt₄, h₃, h₂, h₁]
    simp only [HsMem.hsPacket_write, hbody]
    rfl
  refine ⟨c₄, dh, ?_, hu₄, ?_⟩
  · rw [← hpacket, ofList_toList]
    simp only [hsCreateInitiation, h₄]
    rw [h₃, h₂, h₁]
    rfl
  · rw [← hpacket]
    simp

/-- The packet alone. -/
theorem hsCreateInitiation_packet (ha : AeadAccepts p) {m : HsMem} (hu : Unkeyed m.b2s) :
    (hsCreateInitiation p m).hsPacket = ofList 148 (initiationPacket p m) := by
  obtain ⟨cm, dh, hcells, -⟩ := hsCreateInitiation_spec ha hu
  rw [hcells]
  rfl

/-! ## The response -/

/-- The state `hs_process_response` verifies against, and the key it verifies with. -/
def responseState (p : Primitives) (m : HsMem) : Noise.Symmetric × Bytes 32 :=
  Noise.mixResponse (c64Suite p) m.symmetric (respEphemeral m)
    ((c64Suite p).dh m.hsEphemPriv (respEphemeral m))
    ((c64Suite p).dh m.hsStaticPriv (respEphemeral m)) m.hsPresharedKey

/-- Everything up to the verification is Noise's, whatever the parameter cells held. -/
theorem hsMixResponse_spec (p : Primitives) (m : HsMem) :
    ∃ (cm : CryptoMem) (dh : Bytes 32),
      hsMixResponse p m = m.write cm dh (responseState p m).1 m.hsPacket ∧
      Unkeyed cm.b2s ∧ cm.kdfOut3 = (responseState p m).2 := by
  simp only [hsMixResponse, responseState, Noise.mixResponse, Noise.mixEphemeral]
  -- `e`
  obtain ⟨c₁, h₁, hu₁, -⟩ := hsMixHash_spec p (respEphemeral m).toList m
  rw [h₁]
  generalize Noise.mixHash (c64Suite p) m.symmetric (respEphemeral m).toList = s₁
  obtain ⟨c₂, h₂, -, hu₂⟩ := hsMixKey_spec p derives_kdf1 (respEphemeral m).toList
    (m := m.write c₁ m.hsDhResult s₁ m.hsPacket) hu₁
  simp only [respEphemeral_write, h₂, HsMem.write_write, HsMem.hsDhResult_write,
    HsMem.symmetric_write, HsMem.hsPacket_write, HsMem.hsEphemPriv_write]
  replace hu₂ := (derives_kdf1 (respEphemeral m).toList c₂ hu₂).2
  generalize kdf1 (respEphemeral m).toList c₂ = c₂ at *
  generalize (Noise.mixKey (c64Suite p) s₁ (respEphemeral m).toList).1 = s₂
  -- `ee`
  obtain ⟨c₃, h₃, -, hu₃⟩ := hsMixDh_spec p derives_kdf1 m.hsEphemPriv (respEphemeral m)
    (m := m.write c₂ m.hsDhResult s₂ m.hsPacket) hu₂
  generalize hee : (c64Suite p).dh m.hsEphemPriv (respEphemeral m) = ee at *
  simp only [h₃, HsMem.write_write, HsMem.symmetric_write, HsMem.hsPacket_write, respEphemeral_write,
    HsMem.hsStaticPriv_write]
  replace hu₃ := (derives_kdf1 ee.toList c₃ hu₃).2
  generalize kdf1 ee.toList c₃ = c₃ at *
  generalize (Noise.mixKey (c64Suite p) s₂ ee.toList).1 = s₃
  -- `se`
  obtain ⟨c₄, h₄, -, hu₄⟩ := hsMixDh_spec p derives_kdf1 m.hsStaticPriv (respEphemeral m)
    (m := m.write c₃ ee s₃ m.hsPacket) hu₃
  generalize hse : (c64Suite p).dh m.hsStaticPriv (respEphemeral m) = se at *
  simp only [h₄, HsMem.write_write, HsMem.symmetric_write, HsMem.hsPacket_write,
    HsMem.hsPresharedKey_write]
  replace hu₄ := (derives_kdf1 se.toList c₄ hu₄).2
  generalize kdf1 se.toList c₄ = c₄ at *
  generalize (Noise.mixKey (c64Suite p) s₃ se.toList).1 = s₄
  -- `psk`
  obtain ⟨c₅, h₅, hprk, hu₅⟩ := hsMixKey_spec p derives_kdf3 m.hsPresharedKey.toList
    (m := m.write c₄ se s₄ m.hsPacket) hu₄
  simp only [h₅, HsMem.write_write, HsMem.hsDhResult_write, HsMem.symmetric_write,
    HsMem.hsPacket_write, HsMem.toCryptoMem_write]
  obtain ⟨-, htau, hkey, hu₅'⟩ := kdf3_spec m.hsPresharedKey.toList hu₅
  rw [hprk, HsMem.hsC_write] at htau hkey
  obtain ⟨c₆, h₆, hu₆, hkdf⟩ := hsMixHash_spec p (kdf3 m.hsPresharedKey.toList c₅).kdfOut2.toList
    (m.write (kdf3 m.hsPresharedKey.toList c₅) se
      (Noise.mixKey (c64Suite p) s₄ m.hsPresharedKey.toList).1 m.hsPacket)
  refine ⟨c₆, se, ?_, hu₆, ?_⟩
  · rw [h₆, htau]
    rfl
  · simp only [CryptoMem.kdf, Prod.mk.injEq, HsMem.toCryptoMem_write] at hkdf
    rw [hkdf.2.2.2.1, hkey]
    rfl

/-- The message inside a Type 2 packet. -/
def responseMsg (m : HsMem) : List UInt8 := (slice m.hsRespPacket 12 48).toList

/-- What Noise makes of the response. -/
def response (p : Primitives) (m : HsMem) : Option (Noise.Symmetric × List UInt8) :=
  Noise.readMessage2 (c64Suite p) m.symmetric m.hsEphemPriv m.hsStaticPriv m.hsPresharedKey
    (responseMsg m)

theorem toList_bytes_zero (b : Bytes 0) : b.toList = [] :=
  List.eq_nil_of_length_eq_zero (by simp)

theorem response_eq (p : Primitives) (m : HsMem) :
    response p m =
      if (p.aeadDecrypt (responseState p m).2 (zero 12) (responseState p m).1.h.toList (zero 0)
          (slice m.hsRespPacket 44 16)).1 = true then
        some (Noise.mixHash (c64Suite p) (responseState p m).1 (slice m.hsRespPacket 44 16).toList,
          [])
      else none := by
  have hmsg : responseMsg m =
      (respEphemeral m).toList ++ (slice m.hsRespPacket 44 16).toList :=
    toList_slice_add m.hsRespPacket (show 12 + (32 + 16) ≤ 92 by decide)
  have hlen : (respEphemeral m).toList.length = 32 := by simp
  have hopen := aeadOpen_eq p (responseState p m).2 (responseState p m).1.h.toList (zero 0)
    (slice m.hsRespPacket 44 16)
  rw [toList_bytes_zero, toList_bytes_zero, List.nil_append] at hopen
  simp only [response, Noise.readMessage2, hmsg]
  rw [List.take_append_of_le_length hlen.ge, List.take_of_length_le hlen.le, ofList_toList,
    List.drop_append_of_le_length hlen.ge, List.drop_of_length_le hlen.le, List.nil_append]
  rw [show Noise.mixResponse _ _ _ _ _ _ = responseState p m from rfl, Noise.decryptAndHash, hopen]
  split <;> rfl

/-- After the verification the transcript absorbs the tag and `split` gives the keys. -/
theorem hsDeriveTransport_spec (p : Primitives) (m : HsMem) :
    ∃ (cm : CryptoMem) (s : Noise.Symmetric),
      s = Noise.mixHash (c64Suite p) m.symmetric (slice m.hsRespPacket 44 16).toList ∧
      hsDeriveTransport m =
        { m.write cm m.hsDhResult s m.hsPacket with
          hsTransportSend := (Noise.split (c64Suite p) s).1
          hsTransportRecv := (Noise.split (c64Suite p) s).2 } ∧
      Unkeyed cm.b2s := by
  obtain ⟨c, h, hu, -⟩ := hsMixHash_spec p (slice m.hsRespPacket 44 16).toList m
  obtain ⟨h₁, h₂, -, hu', -⟩ := kdf2_spec [] (m := { c with kdfPrk := m.hsC }) hu
  have hck : (Noise.mixHash (c64Suite p) m.symmetric (slice m.hsRespPacket 44 16).toList).ck =
    m.hsC := rfl
  refine ⟨kdf2 [] { c with kdfPrk := m.hsC }, _, rfl, ?_, hu'⟩
  rw [Noise.split, hck]
  simp only [hsDeriveTransport, h, HsMem.toCryptoMem_write, HsMem.hsC_write, hck, h₁, h₂]
  rfl

/-- What a response is verified against depends on nothing in it but the ephemeral key. -/
theorem responseState_congr (p : Primitives) (m : HsMem) {a b : Bytes 92}
    (h : slice a 12 32 = slice b 12 32) :
    responseState p { m with hsRespPacket := a } = responseState p { m with hsRespPacket := b } := by
  simp only [responseState, respEphemeral, h]
  rfl

/-- **The verdict on a response is Noise's**, and an accepted one installs the keys of `split`. -/
theorem hsProcessResponse_spec (p : Primitives) (m : HsMem) :
    ∃ (cm : CryptoMem) (dh : Bytes 32) (s : Noise.Symmetric),
      Unkeyed cm.b2s ∧
      ((response p m = some (s, []) ∧
          hsProcessResponse p m =
            (true,
              { m.write cm dh s m.hsPacket with
                hsTransportSend := (Noise.split (c64Suite p) s).1
                hsTransportRecv := (Noise.split (c64Suite p) s).2 })) ∨
        (response p m = none ∧
          hsProcessResponse p m = (false, m.write cm dh (responseState p m).1 m.hsPacket))) := by
  obtain ⟨cm, dh, hmix, hun, hkey⟩ := hsMixResponse_spec p m
  rw [response_eq, ← hkey, hsProcessResponse, hmix]
  by_cases hok : (p.aeadDecrypt cm.kdfOut3 (zero 12) (responseState p m).1.h.toList (zero 0)
      (slice m.hsRespPacket 44 16)).1 = true
  · obtain ⟨cm', s, hs, hder, hun'⟩ := hsDeriveTransport_spec p
      (hsStageVerify (m.write cm dh (responseState p m).1 m.hsPacket))
    refine ⟨cm', dh, s, hun', .inl ⟨?_, ?_⟩⟩
    · rw [if_pos hok, hs]
      rfl
    · exact (if_pos hok).trans (congrArg (Prod.mk true) hder)
  · refine ⟨(hsStageVerify (m.write cm dh (responseState p m).1 m.hsPacket)).toCryptoMem, dh,
      (responseState p m).1, hun, .inr ⟨if_neg hok, ?_⟩⟩
    exact if_neg hok

/-- The verdict is that of the AEAD on the tag. -/
theorem hsProcessResponse_fst (p : Primitives) (m : HsMem) :
    (hsProcessResponse p m).1 =
      (p.aeadDecrypt (responseState p m).2 (zero 12) (responseState p m).1.h.toList (zero 0)
        (slice m.hsRespPacket 44 16)).1 := by
  obtain ⟨cm, dh, s, -, ⟨hsome, h⟩ | ⟨hnone, h⟩⟩ := hsProcessResponse_spec p m
  · rw [response_eq] at hsome
    split at hsome
    · rename_i hok
      rw [h, hok]
    · cases hsome
  · rw [response_eq] at hnone
    split at hnone
    · cases hnone
    · rename_i hno
      rw [h, Bool.eq_false_of_not_eq_true hno]

end C64WireGuard
