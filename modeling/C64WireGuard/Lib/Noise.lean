import C64WireGuard.Lib.Bytes

/-!
# The Noise protocol framework, as far as `IKpsk2` needs it

Everything is over a `Suite` of primitives: a hash, a Diffie-Hellman function and an AEAD whose
nonce is zero, which is the only nonce a handshake message uses because every key encrypts once.

With a correct AEAD and agreeing shared secrets, `readMessage1_writeMessage1` says the responder
reads what the initiator wrote and `readMessage2_writeMessage2` that the initiator reads what the
responder answered. Each time both sides are then in the same symmetric state, so `split` hands
them the same pair of transport keys.
-/

namespace Noise

open Bytes

/-- The primitives a protocol is instantiated with. -/
structure Suite where
  hash : List UInt8 → Bytes 32
  /-- `dh secret public`. -/
  dh : Bytes 32 → Bytes 32 → Bytes 32
  /-- The public key of a secret. -/
  pub : Bytes 32 → Bytes 32
  /-- `aeadSeal key ad plaintext`, ciphertext and tag. -/
  aeadSeal : Bytes 32 → List UInt8 → List UInt8 → List UInt8
  aeadOpen : Bytes 32 → List UInt8 → List UInt8 → Option (List UInt8)

/-! ## HMAC and HKDF -/

/-- A key padded to the hash's block of 64 bytes and masked. -/
def hmacPad {n : Nat} (key : Bytes n) (mask : UInt8) : List UInt8 :=
  (tabulate 64 fun i => byte key i ^^^ mask).toList

/-- HMAC, for a key no longer than the block. -/
def hmac (hash : List UInt8 → Bytes 32) {n : Nat} (key : Bytes n) (data : List UInt8) : Bytes 32 :=
  hash (hmacPad key 0x5c ++ (hash (hmacPad key 0x36 ++ data)).toList)

/-- The first three outputs of HKDF. -/
def hkdf (hash : List UInt8 → Bytes 32) (ck : Bytes 32) (input : List UInt8) :
    Bytes 32 × Bytes 32 × Bytes 32 :=
  let prk := hmac hash ck input
  let t₁ := hmac hash prk [1]
  let t₂ := hmac hash prk (t₁.toList ++ [2])
  let t₃ := hmac hash prk (t₂.toList ++ [3])
  (t₁, t₂, t₃)

/-! ## The symmetric state -/

/-- Chaining key and transcript hash. -/
structure Symmetric where
  ck : Bytes 32
  h : Bytes 32

variable (S : Suite)

/-- `MixHash`. -/
def mixHash (s : Symmetric) (data : List UInt8) : Symmetric :=
  { s with h := S.hash (s.h.toList ++ data) }

/-- `MixKey`: the new state and the new cipher key. -/
def mixKey (s : Symmetric) (input : List UInt8) : Symmetric × Bytes 32 :=
  ({ s with ck := (hkdf S.hash s.ck input).1 }, (hkdf S.hash s.ck input).2.1)

/-- `MixKeyAndHash`. -/
def mixKeyAndHash (s : Symmetric) (input : List UInt8) : Symmetric × Bytes 32 :=
  (mixHash S { s with ck := (hkdf S.hash s.ck input).1 } (hkdf S.hash s.ck input).2.1.toList,
    (hkdf S.hash s.ck input).2.2)

/-- `EncryptAndHash`. -/
def encryptAndHash (s : Symmetric) (k : Bytes 32) (plaintext : List UInt8) :
    Symmetric × List UInt8 :=
  let c := S.aeadSeal k s.h.toList plaintext
  (mixHash S s c, c)

/-- `DecryptAndHash`. -/
def decryptAndHash (s : Symmetric) (k : Bytes 32) (ciphertext : List UInt8) :
    Option (Symmetric × List UInt8) :=
  (S.aeadOpen k s.h.toList ciphertext).map fun plaintext => (mixHash S s ciphertext, plaintext)

/-- `Split`: the key the initiator sends with, and the one it receives with. -/
def split (s : Symmetric) : Bytes 32 × Bytes 32 :=
  ((hkdf S.hash s.ck []).1, (hkdf S.hash s.ck []).2.1)

/-- `Initialize`, with the responder's static key as pre-message. -/
def initSymmetric (name prologue : List UInt8) (rs : Bytes 32) : Symmetric :=
  let ck := S.hash name
  mixHash S (mixHash S { ck := ck, h := ck } prologue) rs.toList

/-! ## `IKpsk2` -/

/-- The `e` token of a pre-shared-key pattern. -/
def mixEphemeral (s : Symmetric) (e : Bytes 32) : Symmetric :=
  (mixKey S (mixHash S s e.toList) e.toList).1

/-- The initiator's first message: `e, es, s, ss`. -/
def writeMessage1 (s : Symmetric) (ei si spub rs : Bytes 32) (payload : List UInt8) :
    Symmetric × List UInt8 :=
  let e := S.pub ei
  let s := mixEphemeral S s e
  let es := mixKey S s (S.dh ei rs).toList
  let static := encryptAndHash S es.1 es.2 spub.toList
  let ss := mixKey S static.1 (S.dh si rs).toList
  let last := encryptAndHash S ss.1 ss.2 payload
  (last.1, e.toList ++ static.2 ++ last.2)

/-- What the responder has after the first message. -/
structure Received where
  state : Symmetric
  re : Bytes 32
  rs : Bytes 32
  payload : List UInt8

/-- The responder reads the first message. The initiator's static key is the transmitted one. -/
def readMessage1 (s : Symmetric) (sr : Bytes 32) (msg : List UInt8) : Option Received := do
  let re := ofList 32 (msg.take 32)
  let s := mixEphemeral S s re
  let es := mixKey S s (S.dh sr re).toList
  let static ← decryptAndHash S es.1 es.2 ((msg.drop 32).take 48)
  let rs := ofList 32 static.2
  let ss := mixKey S static.1 (S.dh sr rs).toList
  let last ← decryptAndHash S ss.1 ss.2 (msg.drop 80)
  some { state := last.1, re := re, rs := rs, payload := last.2 }

/-- The state after `e, ee, se, psk`, from the ephemeral key and the two shared secrets, and the
key of the payload. -/
def mixResponse (s : Symmetric) (e ee se psk : Bytes 32) : Symmetric × Bytes 32 :=
  let s := mixEphemeral S s e
  let s := (mixKey S s ee.toList).1
  let s := (mixKey S s se.toList).1
  mixKeyAndHash S s psk.toList

/-- The responder's message: `e, ee, se, psk`. -/
def writeMessage2 (s : Symmetric) (er re rs psk : Bytes 32) (payload : List UInt8) :
    Symmetric × List UInt8 :=
  let e := S.pub er
  let r := mixResponse S s e (S.dh er re) (S.dh er rs) psk
  let last := encryptAndHash S r.1 r.2 payload
  (last.1, e.toList ++ last.2)

/-- The initiator reads it. -/
def readMessage2 (s : Symmetric) (ei si psk : Bytes 32) (msg : List UInt8) :
    Option (Symmetric × List UInt8) :=
  let e := ofList 32 (msg.take 32)
  let r := mixResponse S s e (S.dh ei e) (S.dh si e) psk
  decryptAndHash S r.1 r.2 (msg.drop 32)

/-! ## Agreement -/

/-- On plaintexts of at most a key's length the AEAD opens what it sealed, and adds a tag of 16
bytes. -/
structure Suite.Correct : Prop where
  roundTrip : ∀ k ad pt, pt.length ≤ 32 → S.aeadOpen k ad (S.aeadSeal k ad pt) = some pt
  length : ∀ k ad pt, pt.length ≤ 32 → (S.aeadSeal k ad pt).length = pt.length + 16

variable {S}

theorem decryptAndHash_encryptAndHash (hS : S.Correct) (s : Symmetric) (k : Bytes 32)
    {pt : List UInt8} (hpt : pt.length ≤ 32) :
    decryptAndHash S s k (encryptAndHash S s k pt).2 = some ((encryptAndHash S s k pt).1, pt) := by
  simp only [decryptAndHash, encryptAndHash, hS.roundTrip _ _ _ hpt, Option.map_some]

/-- The responder recovers the initiator's static key and payload, and its state. -/
theorem readMessage1_writeMessage1 (hS : S.Correct) (s : Symmetric)
    {ei si spub rs sr : Bytes 32} {payload : List UInt8} (hpay : payload.length ≤ 32)
    (hes : S.dh ei rs = S.dh sr (S.pub ei)) (hss : S.dh si rs = S.dh sr spub) :
    readMessage1 S s sr (writeMessage1 S s ei si spub rs payload).2 =
      some
        { state := (writeMessage1 S s ei si spub rs payload).1
          re := S.pub ei
          rs := spub
          payload := payload } := by
  have hlen : (S.pub ei).toList.length = 32 := by simp
  simp only [writeMessage1, List.append_assoc]
  generalize hs₁ : mixEphemeral S s (S.pub ei) = s₁
  generalize hk₁ : mixKey S s₁ (S.dh ei rs).toList = k₁
  have hlen₁ : (encryptAndHash S k₁.1 k₁.2 spub.toList).2.length = 48 := by
    simp only [encryptAndHash]
    rw [hS.length _ _ _ (by simp)]
    simp
  generalize hc₁ : encryptAndHash S k₁.1 k₁.2 spub.toList = c₁ at *
  generalize hk₂ : mixKey S c₁.1 (S.dh si rs).toList = k₂
  generalize hc₂ : encryptAndHash S k₂.1 k₂.2 payload = c₂
  have hre : ofList 32 (((S.pub ei).toList ++ (c₁.2 ++ c₂.2)).take 32) = S.pub ei := by
    rw [List.take_append_of_le_length hlen.ge, List.take_of_length_le hlen.le, ofList_toList]
  have hst : (((S.pub ei).toList ++ (c₁.2 ++ c₂.2)).drop 32).take 48 = c₁.2 := by
    rw [List.drop_append_of_le_length hlen.ge, List.drop_of_length_le hlen.le, List.nil_append,
      List.take_append_of_le_length hlen₁.ge, List.take_of_length_le hlen₁.le]
  have hlast : ((S.pub ei).toList ++ (c₁.2 ++ c₂.2)).drop 80 = c₂.2 := by
    rw [← List.append_assoc]
    apply List.drop_left'
    rw [List.length_append, hlen, hlen₁]
  have hd₁ : decryptAndHash S k₁.1 k₁.2 c₁.2 = some (c₁.1, spub.toList) := by
    rw [← hc₁]
    exact decryptAndHash_encryptAndHash hS _ _ (by simp)
  have hd₂ : decryptAndHash S k₂.1 k₂.2 c₂.2 = some (c₂.1, payload) := by
    rw [← hc₂]
    exact decryptAndHash_encryptAndHash hS _ _ hpay
  simp only [readMessage1, hre, hs₁, ← hes, hk₁, hst, hd₁, Option.bind_eq_bind, Option.bind_some,
    ofList_toList, ← hss, hk₂, hlast, hd₂]

/-- The initiator reads the responder's answer and arrives at its state. -/
theorem readMessage2_writeMessage2 (hS : S.Correct) (s : Symmetric)
    {ei si er re rs psk : Bytes 32} {payload : List UInt8} (hpay : payload.length ≤ 32)
    (hee : S.dh ei (S.pub er) = S.dh er re) (hse : S.dh si (S.pub er) = S.dh er rs) :
    readMessage2 S s ei si psk (writeMessage2 S s er re rs psk payload).2 =
      some ((writeMessage2 S s er re rs psk payload).1, payload) := by
  have hlen : (S.pub er).toList.length = 32 := by simp
  simp only [readMessage2, writeMessage2]
  rw [List.take_append_of_le_length hlen.ge, List.take_of_length_le hlen.le, ofList_toList, hee, hse,
    List.drop_append_of_le_length hlen.ge, List.drop_of_length_le hlen.le, List.nil_append]
  exact decryptAndHash_encryptAndHash hS _ _ hpay

end Noise
