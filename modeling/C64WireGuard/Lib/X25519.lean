import C64WireGuard.Lib.Multibyte

/-!
# X25519, as RFC 7748 specifies it

The Montgomery ladder on natural numbers modulo `2^255 - 19`.
-/

namespace X25519

open Bytes

/-- The field's prime. -/
def prime : Nat := 2 ^ 255 - 19

/-- Square-and-multiply, on the bits of the exponent from the low end. -/
def powMod : Nat → Nat → Nat → Nat → Nat
  | 0, _, _, acc => acc
  | fuel + 1, base, e, acc =>
      powMod fuel (base * base % prime) (e / 2) (if e % 2 = 1 then acc * base % prime else acc)

/-- The inverse, by Fermat. -/
def inverse (a : Nat) : Nat := powMod 255 a (prime - 2) 1

/-- Clamp a scalar: clear the low three bits and the top bit, set the second-highest. -/
def clamp (s : Bytes 32) : Bytes 32 :=
  put (put s 0 (byte s 0 &&& 0xf8)) 31 (byte s 31 &&& 0x7f ||| 0x40)

/-- One step of the ladder on `(x₂, z₂, x₃, z₃)`, for the bit `b`. -/
def ladderStep (x₁ : Nat) (b : Bool) (s : Nat × Nat × Nat × Nat) : Nat × Nat × Nat × Nat :=
  let (x₂, z₂, x₃, z₃) := if b then (s.2.2.1, s.2.2.2, s.1, s.2.1) else s
  let a := (x₂ + z₂) % prime
  let aa := a * a % prime
  let b' := (x₂ + prime - z₂) % prime
  let bb := b' * b' % prime
  let e := (aa + prime - bb) % prime
  let c := (x₃ + z₃) % prime
  let d := (x₃ + prime - z₃) % prime
  let da := d * a % prime
  let cb := c * b' % prime
  let s₃ := (da + cb) % prime
  let d₃ := (da + prime - cb) % prime
  let x₃ := s₃ * s₃ % prime
  let z₃ := x₁ * (d₃ * d₃ % prime) % prime
  let x₂ := aa * bb % prime
  let z₂ := e * ((aa + 121665 * e) % prime) % prime
  if b then (x₃, z₃, x₂, z₂) else (x₂, z₂, x₃, z₃)

/-- The ladder over bits `t - 1` down to 0. -/
def ladder (k x₁ : Nat) : Nat → Nat × Nat × Nat × Nat → Nat × Nat × Nat × Nat
  | 0, s => s
  | t + 1, s => ladder k x₁ t (ladderStep x₁ (k.testBit t) s)

/-- Multiply the point with this `u` coordinate by a clamped scalar. -/
def scalarmult (k u : Bytes 32) : Bytes 32 :=
  let x₁ := le u % 2 ^ 255 % prime
  let r := ladder (le k) x₁ 255 (1, 0, x₁, 1)
  let x := r.1 * inverse r.2.1 % prime
  tabulate 32 fun i => UInt8.ofNat (x / 256 ^ i)

/-- The base point. -/
def basePoint : Bytes 32 := put (zero 32) 0 9

/-- The public key of a secret: the base point times the clamped scalar. -/
def base (k : Bytes 32) : Bytes 32 := scalarmult (clamp k) basePoint

end X25519
