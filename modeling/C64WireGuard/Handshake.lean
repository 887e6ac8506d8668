import C64WireGuard.Cookie
import C64WireGuard.Kdf

/-!
# `handshake.s`: the initiator's side of the handshake

`hs_create_initiation` and `hs_process_response` repeat four patterns: `hs_mix_hash`, a key
derivation keyed with `hs_c` that replaces it, a scalar multiplication through the X25519 cells, and
an in-place encryption inside `hs_packet`. Each is one definition here.
-/

namespace C64WireGuard

open Bytes

/-! ## Constants -/

/-- `wg_c_init`. -/
def wgCInit : Bytes 32 :=
  #v[0x60, 0xe2, 0x6d, 0xae, 0xf3, 0x27, 0xef, 0xc0, 0x2e, 0xc3, 0x35, 0xe2, 0xa0, 0x25, 0xd2, 0xd0,
    0x16, 0xeb, 0x42, 0x06, 0xf8, 0x72, 0x77, 0xf5, 0x2d, 0x38, 0xd1, 0x98, 0x8b, 0x78, 0xcd, 0x36]

/-- `wg_h_init`. -/
def wgHInit : Bytes 32 :=
  #v[0x22, 0x11, 0xb3, 0x61, 0x08, 0x1a, 0xc5, 0x66, 0x69, 0x12, 0x43, 0xdb, 0x45, 0x8a, 0xd5, 0x32,
    0x2d, 0x9c, 0x6c, 0x66, 0x22, 0x93, 0xe8, 0xb7, 0x0e, 0xe1, 0x9c, 0x65, 0xba, 0x07, 0x9e, 0xf3]

/-- `wg_mac1_label`, `"mac1----"`. -/
def wgMac1Label : List UInt8 := [0x6d, 0x61, 0x63, 0x31, 0x2d, 0x2d, 0x2d, 0x2d]

/-! ## Steps -/

/-- `hs_init`. Both hashes run under whatever the parameter cells hold. -/
def hsInit (m : HsMem) : HsMem :=
  let m := { m with hsC := wgCInit }
  let m := { m with b2s := blake2sHash .hsInit [wgHInit.toList, m.hsRespPub.toList] m.b2s }
  let m := { m with hsH := m.b2s.b2sHash }
  let m := { m with b2s := blake2sHash .hsInit [wgMac1Label, m.hsRespPub.toList] m.b2s }
  { m with hsMac1Key := m.b2s.b2sHash }

/-- `hs_mix_hash`, which sets the parameter cells itself. -/
def hsMixHash (data : List UInt8) (m : HsMem) : HsMem :=
  let m := { m with b2s := { m.b2s with b2sOutLen := 32, b2sKeyLen := 0 } }
  let m := { m with b2s := blake2sHash .hsMixHash [m.hsH.toList, data] m.b2s }
  { m with hsH := m.b2s.b2sHash }

/-- `hs_c` to `kdf_prk`, one of `kdf_1` to `kdf_3`, `kdf_out1` to `hs_c`. -/
def hsMixKey (kdf : List UInt8 → CryptoMem → CryptoMem) (input : List UInt8) (m : HsMem) : HsMem :=
  let m := { m with kdfPrk := m.hsC }
  let m := { m with toCryptoMem := kdf input m.toCryptoMem }
  { m with hsC := m.kdfOut1 }

/-- Clamp, multiply, and keep the result in `hs_dh_result`. -/
def hsDh (p : Primitives) (priv pub : Bytes 32) (m : HsMem) : HsMem :=
  let m := { m with x25Scalar := priv, x25U := pub }
  let m := { m with x25Scalar := p.x25519Clamp m.x25Scalar }
  let m := { m with x25Result := p.x25519Scalarmult m.x25Scalar m.x25U }
  { m with hsDhResult := m.x25Result }

/-- A key derivation from the shared secret just computed. -/
def hsMixDh (p : Primitives) (kdf : List UInt8 → CryptoMem → CryptoMem) (priv pub : Bytes 32)
    (m : HsMem) : HsMem :=
  let m := hsDh p priv pub m
  hsMixKey kdf m.hsDhResult.toList m

/-- Encrypt `data` in place at offset `off` of `hs_packet` under `kdf_out2`, put the tag behind it
and mix both into the transcript. The result of `aead_encrypt` is not looked at. -/
def hsEncrypt (p : Primitives) (off : Nat) {n : Nat} (data : Bytes n) (m : HsMem) : HsMem :=
  let m := { m with
    aeadKey := m.kdfOut2
    aeadNonce := zero 12
    hsPacket := copyIn m.hsPacket off data }
  let m :=
    match p.aeadEncrypt m.aeadKey m.aeadNonce m.hsH.toList (slice m.hsPacket off n) with
    | none => m
    | some (ciphertext, tag) =>
        { m with hsPacket := copyIn m.hsPacket off ciphertext, poly1305Tag := tag }
  let m := { m with hsPacket := copyIn m.hsPacket (off + n) m.poly1305Tag }
  hsMixHash (slice m.hsPacket off (n + 16)).toList m

/-! ## The initiation -/

/-- Steps 2 and 3 of `hs_create_initiation`: the ephemeral key pair and the header. -/
def hsEphemeral (p : Primitives) (m : HsMem) : HsMem :=
  let m := { m with x25Scalar := m.hsEphemPriv }
  let m := { m with x25Result := p.x25519Base m.x25Scalar }
  let m := { m with hsEphemPub := m.x25Result }
  let pkt := copyIn m.hsPacket 0 (#v[1, 0, 0, 0] : Bytes 4)
  let pkt := copyIn pkt 4 m.hsSenderIdx
  { m with hsPacket := copyIn pkt 8 m.hsEphemPub }

/-- Steps 4 to 10 of `hs_create_initiation`. -/
def hsWriteMessage (p : Primitives) (m : HsMem) : HsMem :=
  let m := hsMixHash m.hsEphemPub.toList m
  let m := hsMixKey kdf1 m.hsEphemPub.toList m
  let m := hsMixDh p kdf2 m.hsEphemPriv m.hsRespPub m
  let m := hsEncrypt p 40 m.hsStaticPub m
  let m := hsMixDh p kdf2 m.hsStaticPriv m.hsRespPub m
  hsEncrypt p 88 m.hsTimestamp m

/-- `hs_compute_mac1`. -/
def hsComputeMac1 (m : HsMem) : HsMem :=
  { m with b2s := keyedMac .hsComputeMac1 m.hsMac1Key (slice m.hsPacket 0 116).toList m.b2s }

/-- Step 11 of `hs_create_initiation`. -/
def hsMacs (m : HsMem) : HsMem :=
  let m := hsComputeMac1 m
  let m := { m with hsPacket := copyIn m.hsPacket 116 (slice m.b2s.b2sHash 0 16) }
  let m := { m with hsMac1Valid := true }
  if m.cookieValid then hsSetMac2 m
  else { m with hsPacket := copyIn m.hsPacket 132 (zero 16) }

/-- `hs_create_initiation`. -/
def hsCreateInitiation (p : Primitives) (m : HsMem) : HsMem :=
  let m := hsInit m
  let m := hsEphemeral p m
  let m := hsWriteMessage p m
  hsMacs m

/-! ## The response -/

/-- The responder's ephemeral key in `hs_resp_packet`. -/
def respEphemeral (m : HsMem) : Bytes 32 := slice m.hsRespPacket 12 32

/-- `hs_process_response` up to the verification. -/
def hsMixResponse (p : Primitives) (m : HsMem) : HsMem :=
  let m := hsMixHash (respEphemeral m).toList m
  let m := hsMixKey kdf1 (respEphemeral m).toList m
  let m := hsMixDh p kdf1 m.hsEphemPriv (respEphemeral m) m
  let m := hsMixDh p kdf1 m.hsStaticPriv (respEphemeral m) m
  let m := hsMixKey kdf3 m.hsPresharedKey.toList m
  hsMixHash m.kdfOut2.toList m

/-- The rest of it, after `aead_decrypt` returned 0. -/
def hsDeriveTransport (m : HsMem) : HsMem :=
  let m := hsMixHash (slice m.hsRespPacket 44 16).toList m
  let m := { m with kdfPrk := m.hsC }
  let m := { m with toCryptoMem := kdf2 [] m.toCryptoMem }
  { m with hsTransportSend := m.kdfOut1, hsTransportRecv := m.kdfOut2 }

/-- The AEAD cells for the verification. -/
def hsStageVerify (m : HsMem) : HsMem :=
  { m with
    aeadKey := m.kdfOut3
    aeadNonce := zero 12
    aeadTag := slice m.hsRespPacket 44 16 }

/-- `hs_process_response`: `true` is `A = 0`. The verified plaintext is empty, so nothing is written
through the data pointer. -/
def hsProcessResponse (p : Primitives) (m : HsMem) : Bool × HsMem :=
  let m := hsMixResponse p m
  let m := hsStageVerify m
  if (p.aeadDecrypt m.aeadKey m.aeadNonce m.hsH.toList (zero 0) m.aeadTag).1 then
    (true, hsDeriveTransport m)
  else (false, m)

end C64WireGuard
