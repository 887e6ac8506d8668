import C64WireGuard.Responder
import C64WireGuard.Rfc

/-!
# The documented behaviour of `noiseprotocol`

What the responder relies on, over the primitives of the other end. A connection is seen through
a view of its state; `noiseRead` and `noiseWrite` are the two handshake messages of a responder,
with the exceptions of the libraries underneath: an X25519 exchange refuses an all-zero shared
secret with a `ValueError`, and a failed authentication is an `InvalidTag`. The transmitted static
key becomes the remote static key, whatever was preset. Transport messages are numbered by an
internal nonce that a successful call advances.

`rfcNoise` is a library that behaves so. The development never assumes it; it is the instance
concrete runs are made with.
-/

namespace C64WireGuard

open Bytes Blake2s

/-! ## The handshake messages of a responder -/

variable (p : Primitives)

/-- What later calls on a connection depend on. -/
inductive ConnectionView
  | started (psk staticPriv : Bytes 32)
  | received (psk : Bytes 32) (r : Noise.Received)
  | transport (recvKey : Bytes 32) (recvNonce : Nat) (sendKey : Bytes 32) (sendNonce : Nat)

/-- The static public key encrypted inside an initiator's message. -/
def sealedStatic (staticPriv : Bytes 32) (msg : List UInt8) : Option (Bytes 32) :=
  let re := ofList 32 (msg.take 32)
  let s := Noise.mixEphemeral (c64Suite p) (initialState p (p.x25519Base staticPriv)) re
  let es := Noise.mixKey (c64Suite p) s ((c64Suite p).dh staticPriv re).toList
  (Noise.decryptAndHash (c64Suite p) es.1 es.2 ((msg.drop 32).take 48)).map fun static =>
    ofList 32 static.2

/-- What Noise makes of an initiator's message. -/
def openedInitiation (staticPriv : Bytes 32) (msg : List UInt8) : Option Noise.Received :=
  Noise.readMessage1 (c64Suite p) (initialState p (p.x25519Base staticPriv)) staticPriv msg

/-- `read_message` of a responder: `e, es, s, ss`, then the payload. -/
def noiseRead (staticPriv : Bytes 32) (msg : List UInt8) : Except PyError Noise.Received :=
  if (c64Suite p).dh staticPriv (ofList 32 (msg.take 32)) = zero 32 then .error .nullSharedKey
  else
    match sealedStatic p staticPriv msg with
    | none => .error .invalidTag
    | some rs =>
        if (c64Suite p).dh staticPriv rs = zero 32 then .error .nullSharedKey
        else
          match openedInitiation p staticPriv msg with
          | none => .error .invalidTag
          | some r => .ok r

/-- `write_message(b"")` of a responder: `e, ee, se, psk`. -/
def noiseWrite (psk : Bytes 32) (r : Noise.Received) (e : Bytes 32) :
    Except PyError (Noise.Symmetric × List UInt8) :=
  if (c64Suite p).dh e r.re = zero 32 ∨ (c64Suite p).dh e r.rs = zero 32 then .error .nullSharedKey
  else .ok (Noise.writeMessage2 (c64Suite p) r.state e r.re r.rs psk [])

/-- The nonce of the `n`-th transport message. -/
def transportNonce (n : Nat) : Bytes 12 := transportBuildNonce (counterOf n)

/-- A transport message opened under a key and the nonce of its number. -/
def transportOpen (key : Bytes 32) (n : Nat) (ciphertext : List UInt8) : Option (List UInt8) :=
  let r := p.aeadDecrypt key (transportNonce n) [] (ofList (ciphertext.length - 16) ciphertext)
    (ofList 16 (ciphertext.drop (ciphertext.length - 16)))
  if 16 ≤ ciphertext.length ∧ r.1 = true then some r.2.toList else none

theorem sealedStatic_of_opened {staticPriv : Bytes 32} {msg : List UInt8} {r : Noise.Received}
    (h : openedInitiation p staticPriv msg = some r) :
    sealedStatic p staticPriv msg = some r.rs ∧ r.re = ofList 32 (msg.take 32) := by
  unfold openedInitiation Noise.readMessage1 at h
  unfold sealedStatic
  dsimp only at h ⊢
  generalize Noise.mixKey (c64Suite p) _ _ = es at h ⊢
  cases hs : Noise.decryptAndHash (c64Suite p) es.1 es.2 ((msg.drop 32).take 48) with
  | none =>
    rw [hs] at h
    cases h
  | some static =>
    rw [hs, Option.bind_eq_bind, Option.bind_some] at h
    generalize Noise.mixKey (c64Suite p) _ _ = ss at h
    cases hl : Noise.decryptAndHash (c64Suite p) ss.1 ss.2 (msg.drop 80) with
    | none =>
      rw [hl] at h
      cases h
    | some last =>
      rw [hl, Option.bind_some, Option.some.injEq] at h
      subst h
      exact ⟨rfl, rfl⟩

/-- A message is read when Noise opens it and no shared secret is refused. -/
theorem noiseRead_ok_iff (staticPriv : Bytes 32) (msg : List UInt8) (r : Noise.Received) :
    noiseRead p staticPriv msg = .ok r ↔
      openedInitiation p staticPriv msg = some r ∧ (c64Suite p).dh staticPriv r.re ≠ zero 32 ∧
        (c64Suite p).dh staticPriv r.rs ≠ zero 32 := by
  unfold noiseRead
  constructor
  · intro h
    by_cases hes : (c64Suite p).dh staticPriv (ofList 32 (msg.take 32)) = zero 32
    · rw [if_pos hes] at h
      cases h
    · rw [if_neg hes] at h
      cases hs : sealedStatic p staticPriv msg with
      | none =>
        rw [hs] at h
        cases h
      | some rs =>
        rw [hs] at h
        dsimp only at h
        by_cases hss : (c64Suite p).dh staticPriv rs = zero 32
        · rw [if_pos hss] at h
          cases h
        · rw [if_neg hss] at h
          cases ho : openedInitiation p staticPriv msg with
          | none =>
            rw [ho] at h
            cases h
          | some r' =>
            rw [ho] at h
            cases h
            obtain ⟨hsealed, hre⟩ := sealedStatic_of_opened p ho
            rw [hs, Option.some.injEq] at hsealed
            subst hsealed
            rw [hre]
            exact ⟨rfl, hes, hss⟩
  · rintro ⟨ho, hes, hss⟩
    obtain ⟨hsealed, hre⟩ := sealedStatic_of_opened p ho
    rw [hre] at hes
    rw [if_neg hes, hsealed]
    dsimp only
    rw [if_neg hss, ho]

theorem noiseRead_error (staticPriv : Bytes 32) (msg : List UInt8) {e : PyError}
    (h : noiseRead p staticPriv msg = .error e) : e = .nullSharedKey ∨ e = .invalidTag := by
  unfold noiseRead at h
  split at h
  · exact Or.inl (Except.error.inj h).symm
  · split at h
    · exact Or.inr (Except.error.inj h).symm
    · split at h
      · exact Or.inl (Except.error.inj h).symm
      · split at h
        · exact Or.inr (Except.error.inj h).symm
        · cases h

/-! ## The library -/

variable {p}

/-- The documented behaviour, on connections seen through `view`. -/
structure NoiseLib.Implements (L : NoiseLib) (p : Primitives)
    (view : L.Connection → ConnectionView) : Prop where
  publicKey : ∀ k, L.publicKey k = p.x25519Base k
  startHandshake : ∀ psk staticPriv remoteStatic,
    view (L.startHandshake psk staticPriv remoteStatic) = .started psk staticPriv
  readMessage : ∀ c psk staticPriv msg, view c = .started psk staticPriv → msg.length = 108 →
    (∀ err, noiseRead p staticPriv msg = .error err → L.readMessage c msg = .error err) ∧
    ∀ r, noiseRead p staticPriv msg = .ok r →
      ∃ c', L.readMessage c msg = .ok (c', r.payload) ∧ view c' = .received psk r
  writeMessage : ∀ c psk r e, view c = .received psk r →
    (∀ err, noiseWrite p psk r e = .error err → L.writeMessage c e [] = .error err) ∧
    ∀ s msg, noiseWrite p psk r e = .ok (s, msg) →
      ∃ c', L.writeMessage c e [] = .ok (c', msg) ∧
        view c' = .transport (Noise.split (c64Suite p) s).1 0 (Noise.split (c64Suite p) s).2 0
  decrypt : ∀ c recvKey n sendKey m ciphertext, view c = .transport recvKey n sendKey m →
    n < 2 ^ 64 - 1 → ciphertext.length < 2 ^ 16 →
    match transportOpen p recvKey n ciphertext with
    | none => L.decrypt c ciphertext = (c, .error .noiseInvalidMessage)
    | some plaintext => ∃ c', L.decrypt c ciphertext = (c', .ok plaintext) ∧
        view c' = .transport recvKey (n + 1) sendKey m

/-- A library whose connections are their views. -/
def rfcNoise (p : Primitives) : NoiseLib where
  Connection := ConnectionView
  publicKey := p.x25519Base
  startHandshake psk staticPriv _ := .started psk staticPriv
  readMessage c msg :=
    match c with
    | .started psk staticPriv =>
        (noiseRead p staticPriv msg).map fun r => (.received psk r, r.payload)
    | _ => .error .noiseInvalidMessage
  writeMessage c e _ :=
    match c with
    | .received psk r =>
        (noiseWrite p psk r e).map fun w =>
          (.transport (Noise.split (c64Suite p) w.1).1 0 (Noise.split (c64Suite p) w.1).2 0, w.2)
    | _ => .error .noiseInvalidMessage
  encrypt c plaintext :=
    match c with
    | .transport recvKey n sendKey m =>
        if 2 ^ 64 - 1 ≤ m then (c, .error .noiseMaxNonce)
        else
          match p.aeadEncrypt sendKey (transportNonce m) [] (ofList plaintext.length plaintext) with
          | none => (c, .error .noiseInvalidMessage)
          | some (ciphertext, tag) =>
              (.transport recvKey n sendKey (m + 1), .ok (ciphertext.toList ++ tag.toList))
    | _ => (c, .error .noiseInvalidMessage)
  decrypt c ciphertext :=
    match c with
    | .transport recvKey n sendKey m =>
        if 2 ^ 64 - 1 ≤ n then (c, .error .noiseMaxNonce)
        else
          match transportOpen p recvKey n ciphertext with
          | none => (c, .error .noiseInvalidMessage)
          | some plaintext => (.transport recvKey (n + 1) sendKey m, .ok plaintext)
    | _ => (c, .error .noiseInvalidMessage)

theorem rfcNoise_implements (p : Primitives) : (rfcNoise p).Implements p id where
  publicKey _ := rfl
  startHandshake _ _ _ := rfl
  readMessage := by
    rintro c psk staticPriv msg rfl -
    refine ⟨fun err h => ?_, fun r h => ⟨.received psk r, ?_, rfl⟩⟩
    · simp only [rfcNoise, h]
      rfl
    · simp only [rfcNoise, h]
      rfl
  writeMessage := by
    rintro c psk r e rfl
    refine ⟨fun err h => ?_, fun s msg h => ⟨_, ?_, rfl⟩⟩
    · simp only [rfcNoise, h]
      rfl
    · simp only [rfcNoise, h]
      rfl
  decrypt := by
    rintro c recvKey n sendKey m ciphertext rfl hn -
    have hlt : ¬ 2 ^ 64 - 1 ≤ n := Nat.not_le.mpr hn
    cases h : transportOpen p recvKey n ciphertext with
    | none => simp only [rfcNoise, h, if_neg hlt]
    | some plaintext => exact ⟨_, by simp only [rfcNoise, h, if_neg hlt], rfl⟩

/-- `write_message(b"")` of a responder is an ephemeral key and a tag: 48 bytes. -/
def NoiseLib.WritesMsg2 (L : NoiseLib) : Prop :=
  ∀ c e c' msg, L.writeMessage c e [] = .ok (c', msg) → msg.length = 48

/-- The second message is 48 bytes long. -/
theorem length_writeMessage2 (ha : AeadAccepts p) (s : Noise.Symmetric) (er re rs psk : Bytes 32) :
    (Noise.writeMessage2 (c64Suite p) s er re rs psk []).2.length = 48 := by
  simp only [Noise.writeMessage2, List.length_append, Vector.length_toList]
  rw [encryptAndHash_length ha _ _ (by simp)]
  rfl

theorem rfcNoise_writesMsg2 (ha : AeadAccepts p) : (rfcNoise p).WritesMsg2 := by
  intro c e c' msg h
  cases c with
  | received psk r =>
    simp only [rfcNoise, noiseWrite] at h
    split at h
    · cases h
    · cases h
      exact length_writeMessage2 ha _ _ _ _ _
  | started psk staticPriv => cases h
  | transport k n k' m => cases h

theorem rfcPrims_aeadInverts : AeadInverts rfcPrims := by
  intro key nonce ad n data c tag h
  cases h
  exact ChaChaPoly.aeadOpen_aeadSeal key nonce ad data

/-! ## An instance -/

/-- A secret key. -/
def sampleKey (k : Nat) : Bytes 32 := tabulate 32 fun i => UInt8.ofNat (k * (i + 1))

/-- The responder of the second secret key, with this peer. -/
def sampleResponder (peerStaticPub : Bytes 32) : Responder (rfcNoise rfcPrims) where
  staticPriv := sampleKey 2
  peerStaticPub := peerStaticPub
  psk := sampleKey 9
  mySenderIdx := #v[1, 2, 3, 4]
  noise := none
  c64SenderIdx := none
  sendCounter := 0
  greatestTimestamps := fun _ => none
  lastTimestamp := none
  handshakeComplete := false

end C64WireGuard
