import C64WireGuard.Transport
import C64WireGuard.Lib.ChaChaPoly
import C64WireGuard.Lib.X25519

/-!
# The primitives as the RFCs define them

`rfcPrims` is what the linked crypto libraries document themselves to compute. The development
never assumes it; it is the instance concrete runs are made with.
-/

namespace C64WireGuard

open Bytes

/-- RFC 7748 and RFC 8439. `chacha20_quarter_round` is handed four times the index of its round. -/
def rfcPrims : Primitives where
  x25519Clamp := X25519.clamp
  x25519Scalarmult := X25519.scalarmult
  x25519Base := X25519.base
  aeadEncrypt := fun key nonce aad {_} data => some (ChaChaPoly.aeadSeal key nonce aad data)
  aeadDecrypt := fun key nonce aad {_} data tag => ChaChaPoly.aeadOpen key nonce aad data tag
  chacha20Init := ChaChaPoly.initState
  chacha20QuarterRound := fun i work =>
    ChaChaPoly.ofWords (ChaChaPoly.quarterRound (ChaChaPoly.toWords work)
      (ChaChaPoly.quarterIndices.getD (i / 4) (0, 0, 0, 0)))

/-- The ChaCha20-Poly1305 routines do what RFC 8439 says. What `aead_decrypt` leaves in the data
buffer matters when the tag matched. -/
structure Rfc8439 (p : Primitives) : Prop where
  chacha20Init : ∀ (key : Bytes 32) (counter : Bytes 4) (nonce : Bytes 12),
    p.chacha20Init key counter nonce = ChaChaPoly.initState key counter nonce
  chacha20QuarterRound : ∀ (i : Nat) (work : Bytes 64), i < 8 →
    p.chacha20QuarterRound (4 * i) work =
      ChaChaPoly.ofWords (ChaChaPoly.quarterRound (ChaChaPoly.toWords work)
        (ChaChaPoly.quarterIndices.getD i (0, 0, 0, 0)))
  aeadDecrypt : ∀ (key : Bytes 32) (nonce : Bytes 12) (aad : List UInt8) {n : Nat} (data : Bytes n)
    (tag : Bytes 16),
    (p.aeadDecrypt key nonce aad data tag).1 = (ChaChaPoly.aeadOpen key nonce aad data tag).1 ∧
      ((p.aeadDecrypt key nonce aad data tag).1 = true →
        (p.aeadDecrypt key nonce aad data tag).2 =
          (ChaChaPoly.aeadOpen key nonce aad data tag).2)

theorem rfcPrims_rfc8439 : Rfc8439 rfcPrims where
  chacha20Init _ _ _ := rfl
  chacha20QuarterRound i work _ := by
    simp only [rfcPrims]
    rw [Nat.mul_div_cancel_left i (by decide)]
  aeadDecrypt _ _ _ _ _ _ := ⟨rfl, fun _ => rfl⟩

/-- A counter's eight little-endian bytes. -/
def counterOf (n : Nat) : Bytes 8 := tabulate 8 fun i => UInt8.ofNat (n / 256 ^ i)

theorem le_counterOf {n : Nat} (h : n < 2 ^ 60) : le (counterOf n) = n := by
  rw [counterOf, le_digits]
  omega

/-- A genuine Type 4 packet with an empty payload. -/
def keepalivePacket (key : Bytes 32) (counter : Bytes 8) : UdpRecv where
  udpRecvBuf :=
    copyIn (copyIn (put (zero _) 0 4) 8 counter) 16
      (ChaChaPoly.tag key (transportBuildNonce counter) [] (zero 0))
  udpRecvLen := 32
  udpRecvLen_le := by decide
  udpRecvSrc := .start
  udpRecvReady := true

theorem byte_keepalivePacket (key : Bytes 32) (counter : Bytes 8) :
    byte (keepalivePacket key counter).udpRecvBuf 0 = 4 := by
  simp [keepalivePacket, udpRecvBufSize]

theorem packetCounter_keepalivePacket (key : Bytes 32) (counter : Bytes 8) :
    packetCounter (keepalivePacket key counter) = counter := by
  rw [packetCounter, keepalivePacket, slice_copyIn_disjoint _ _ (Or.inr (by decide)),
    slice_copyIn_self _ _ (by decide)]

theorem tag_keepalivePacket (key : Bytes 32) (counter : Bytes 8) :
    slice (keepalivePacket key counter).udpRecvBuf 16 16 =
      ChaChaPoly.tag key (transportBuildNonce counter) [] (zero 0) := by
  rw [keepalivePacket, slice_copyIn_self _ _ (by decide)]

end C64WireGuard
