import C64WireGuard.ResponderLaws

/-!
# Which initiations the responder answers

`Responder.Accepts` is the condition on a packet, `handleInitiation_accepted` what the responder
does with such a packet, and `handleInitiation_outcome` that it raises on every other. What it
raises is not always a `ValueError`: an `InvalidTag` leaves `handle_initiation`, and the receive loop
with it. `handleInitiation_survives` says for which packets that is so.
-/

namespace C64WireGuard

open Bytes Blake2s

variable {L : NoiseLib} {p : Primitives} {view : L.Connection → ConnectionView}

/-! ## The condition -/

/-- The Noise message inside a Type 1 packet. -/
def initiationMsg (packet : List UInt8) : List UInt8 := span packet t1OffNoise t1OffMac1

/-- Everything an accepted packet satisfies. `received` is what Noise reads from it. -/
structure Responder.Accepts (p : Primitives) (r : Responder L) (packet : List UInt8) (e : Bytes 32)
    (received : Noise.Received) : Prop where
  header : r.HeaderOk packet
  read : noiseRead p r.staticPriv (initiationMsg packet) = .ok received
  timestamp : received.payload.length = 12
  fresh : r.stale received.payload = none
  ee : (c64Suite p).dh e received.re ≠ zero 32
  se : (c64Suite p).dh e received.rs ≠ zero 32

/-- The Noise message of the answer, and the state behind it. -/
def Responder.answer (p : Primitives) (r : Responder L) (e : Bytes 32) (received : Noise.Received) :
    Noise.Symmetric × List UInt8 :=
  Noise.writeMessage2 (c64Suite p) received.state e received.re received.rs r.psk []

/-- The Type 2 packet up to its MACs. -/
def Responder.responseBody (p : Primitives) (r : Responder L) (packet : List UInt8) (e : Bytes 32)
    (received : Noise.Received) : List UInt8 :=
  [msgTypeResponse, 0, 0, 0] ++ r.mySenderIdx.toList ++
    (ofList 4 (span packet t1OffSender t1OffNoise)).toList ++ (r.answer p e received).2

/-- The Type 2 packet. -/
def Responder.response (p : Primitives) (r : Responder L) (packet : List UInt8) (e : Bytes 32)
    (received : Noise.Received) : List UInt8 :=
  r.responseBody p packet e received ++
    computeMac1 (r.responseBody p packet e received) (responderMac1Key r.peerStaticPub) ++
    List.replicate 16 0

theorem length_initiationMsg {r : Responder L} {packet : List UInt8} (h : r.HeaderOk packet) :
    (initiationMsg packet).length = 108 := by
  have hlen := h.length
  simp only [initiationMsg, span, t1OffNoise, t1OffMac1, t1Total, List.length_take,
    List.length_drop] at hlen ⊢
  omega

theorem length_responseBody (ha : AeadAccepts p) (r : Responder L) (packet : List UInt8)
    (e : Bytes 32) (received : Noise.Received) :
    (r.responseBody p packet e received).length = 60 := by
  have hlen := length_writeMessage2 ha received.state e received.re received.rs r.psk
  simp only [Responder.responseBody, Responder.answer, List.length_append, hlen,
    Vector.length_toList, List.length_cons, List.length_nil]

theorem length_response (ha : AeadAccepts p) (r : Responder L) (packet : List UInt8) (e : Bytes 32)
    (received : Noise.Received) : (r.response p packet e received).length = t2Total := by
  simp only [Responder.response, List.length_append, length_responseBody ha, length_computeMac1,
    List.length_replicate, t2Total]

/-- **What an accepted initiation does.** -/
theorem Responder.handleInitiation_accepted (hL : L.Implements p view) (ha : AeadAccepts p)
    {r : Responder L} {packet : List UInt8} {e : Bytes 32} {received : Noise.Received}
    (h : r.Accepts p packet e received) :
    ∃ noise,
      r.handleInitiation packet e =
        (r.commit noise (ofList 4 (span packet t1OffSender t1OffNoise)) received.payload,
          .ok (r.response p packet e received)) ∧
      view noise =
        .transport (Noise.split (c64Suite p) (r.answer p e received).1).1 0
          (Noise.split (c64Suite p) (r.answer p e received).1).2 0 := by
  obtain ⟨noise, hread, hview⟩ := (hL.readMessage _ _ _ _
    (hL.startHandshake r.psk r.staticPriv r.peerStaticPub)
    (length_initiationMsg h.header)).2 received h.read
  have hnonzero : ¬ ((c64Suite p).dh e received.re = zero 32 ∨
      (c64Suite p).dh e received.rs = zero 32) := not_or.mpr ⟨h.ee, h.se⟩
  obtain ⟨noise', hwrite, hview'⟩ := (hL.writeMessage noise r.psk received e hview).2
    (r.answer p e received).1 (r.answer p e received).2 (if_neg hnonzero)
  have hbuild : (r.commit noise' (ofList 4 (span packet t1OffSender t1OffNoise))
      received.payload).buildType2 (r.answer p e received).2 =
        .ok (r.response p packet e received) := by
    have hlen := length_response ha r packet e received
    unfold buildType2
    dsimp only
    exact if_pos hlen
  refine ⟨noise', ?_, hview'⟩
  rw [handleInitiation_of_headerOk h.header]
  unfold consumeInitiation
  rw [← initiationMsg, hread]
  dsimp only
  rw [if_neg (not_not.mpr h.timestamp), h.fresh]
  dsimp only
  rw [hwrite]
  dsimp only
  rw [hbuild]

/-- The null-secret refusals are `ValueError`s, and a failed authentication is not. -/
theorem Responder.handleInitiation_outcome (hL : L.Implements p view) (r : Responder L)
    (packet : List UInt8) (e : Bytes 32) :
    (∃ received, r.Accepts p packet e received) ∨
    ∃ err, r.handleInitiation packet e = (r, .error err) ∧
      (err.isValueError = false ↔
        r.HeaderOk packet ∧ noiseRead p r.staticPriv (initiationMsg packet) = .error .invalidTag) := by
  by_cases hhead : r.HeaderOk packet
  · rw [handleInitiation_of_headerOk hhead]
    unfold consumeInitiation
    rw [← initiationMsg]
    obtain ⟨hbad, hgood⟩ := hL.readMessage _ _ _ _
      (hL.startHandshake r.psk r.staticPriv r.peerStaticPub) (length_initiationMsg hhead)
    cases hread : noiseRead p r.staticPriv (initiationMsg packet) with
    | error err =>
      right
      rw [hbad err hread]
      refine ⟨err, rfl, ?_⟩
      rcases noiseRead_error p _ _ hread with rfl | rfl
      · simp [PyError.isValueError]
      · simp [PyError.isValueError, hhead]
    | ok received =>
      obtain ⟨noise, hok, hview⟩ := hgood received hread
      rw [hok]
      dsimp only
      by_cases hlen : received.payload.length = 12
      · rw [if_neg (not_not.mpr hlen)]
        cases hstale : r.stale received.payload with
        | some greatest => exact Or.inr ⟨_, rfl, by simp [PyError.isValueError]⟩
        | none =>
          by_cases hnull : (c64Suite p).dh e received.re = zero 32 ∨
              (c64Suite p).dh e received.rs = zero 32
          · right
            rw [(hL.writeMessage noise r.psk received e hview).1 .nullSharedKey (if_pos hnull)]
            exact ⟨_, rfl, by simp [PyError.isValueError]⟩
          · obtain ⟨hee, hse⟩ := not_or.mp hnull
            exact Or.inl ⟨received, hhead, hread, hlen, hstale, hee, hse⟩
      · rw [if_pos hlen]
        exact Or.inr ⟨_, rfl, by simp [PyError.isValueError]⟩
  · obtain ⟨err, herr, hvalue⟩ := handleInitiation_of_not_headerOk hhead e
    right
    exact ⟨err, herr, by simp [hvalue, hhead]⟩

theorem Responder.handleInitiation_ok_iff (hL : L.Implements p view) (ha : AeadAccepts p)
    (r : Responder L) (packet : List UInt8) (e : Bytes 32) :
    (∃ response, (r.handleInitiation packet e).2 = .ok response) ↔
      ∃ received, r.Accepts p packet e received := by
  constructor
  · rintro ⟨response, hok⟩
    rcases r.handleInitiation_outcome hL packet e with haccepts | ⟨err, herr, -⟩
    · exact haccepts
    · rw [herr] at hok
      cases hok
  · rintro ⟨received, haccepts⟩
    obtain ⟨noise, heq, -⟩ := handleInitiation_accepted hL ha haccepts
    exact ⟨_, by rw [heq]⟩

/-! ## Surviving any datagram -/

/-- A packet that reaches the Noise layer and does not authenticate there. -/
def Responder.Unauthentic (p : Primitives) (r : Responder L) (packet : List UInt8) : Prop :=
  r.HeaderOk packet ∧ noiseRead p r.staticPriv (initiationMsg packet) = .error .invalidTag

/-- A packet is answered with a Type 2 packet, or refused with a `ValueError`. -/
def Responder.Survives (r : Responder L) (packet : List UInt8) (e : Bytes 32) : Prop :=
  (∃ response, (r.handleInitiation packet e).2 = .ok response ∧ response.length = t2Total) ∨
    ∃ err, (r.handleInitiation packet e).2 = .error err ∧ err.isValueError = true

theorem Responder.survives_iff (hL : L.Implements p view) (ha : AeadAccepts p) (r : Responder L)
    (packet : List UInt8) (e : Bytes 32) : r.Survives packet e ↔ ¬ r.Unauthentic p packet := by
  unfold Survives Unauthentic
  rcases r.handleInitiation_outcome hL packet e with ⟨received, haccepts⟩ | ⟨err, herr, hvalue⟩
  · obtain ⟨noise, heq, -⟩ := handleInitiation_accepted hL ha haccepts
    rw [heq, haccepts.read]
    simp [length_response ha]
  · rw [herr, ← hvalue]
    simp

/-- What identifies a responder to its peers never changes. -/
theorem Responder.unauthentic_congr {r r' : Responder L} (h : r'.staticPriv = r.staticPriv)
    (packet : List UInt8) : r'.Unauthentic p packet ↔ r.Unauthentic p packet := by
  have hhead : r'.HeaderOk packet ↔ r.HeaderOk packet := by
    constructor
    · rintro ⟨hlen, hbyte, hres, hmac⟩
      rw [staticPub, h] at hmac
      exact ⟨hlen, hbyte, hres, hmac⟩
    · rintro ⟨hlen, hbyte, hres, hmac⟩
      rw [staticPub, ← h] at hmac
      exact ⟨hlen, hbyte, hres, hmac⟩
  unfold Unauthentic
  rw [hhead, h]

theorem Responder.decryptTransport_staticPriv (r : Responder L) (packet : List UInt8) :
    (r.decryptTransport packet).1.staticPriv = r.staticPriv := by
  unfold decryptTransport
  split
  · split
    · rfl
    · split <;> rfl
  · rfl

/-- One iteration of the receive loop ends with an exception on an unauthentic packet only. -/
theorem Server.serve_cases (hL : L.Implements p view) (ha : AeadAccepts p) (s : Server L)
    (d : Datagram) :
    (s.responder.Unauthentic p d.data ∧ ∃ err, s.serve d = .error err) ∨
    (¬ s.responder.Unauthentic p d.data ∧
      ∃ s', s.serve d = .ok s' ∧ s'.responder.staticPriv = s.responder.staticPriv) := by
  by_cases htype : d.data.getD 0 0 = msgTypeInitiation
  · have hnil : d.data ≠ [] := by
      intro hnil
      rw [hnil] at htype
      cases htype
    unfold serve
    rw [if_neg hnil, if_pos htype]
    rcases s.responder.handleInitiation_outcome hL d.data d.ephemeral with
      ⟨received, haccepts⟩ | ⟨err, herr, hvalue⟩
    · right
      obtain ⟨noise, heq, -⟩ := Responder.handleInitiation_accepted hL ha haccepts
      rw [heq]
      refine ⟨?_, _, rfl, rfl⟩
      rintro ⟨-, hread⟩
      rw [haccepts.read] at hread
      cases hread
    · rw [herr]
      dsimp only
      cases hv : err.isValueError with
      | false => exact Or.inl ⟨hvalue.mp hv, err, by simp⟩
      | true =>
        right
        refine ⟨fun hbad => ?_, _, by rw [if_pos rfl], rfl⟩
        rw [hvalue.mpr hbad] at hv
        cases hv
  · right
    refine ⟨fun hbad => htype hbad.1.byte0, ?_⟩
    unfold serve
    by_cases hnil : d.data = []
    · exact ⟨s, by rw [if_pos hnil], rfl⟩
    · rw [if_neg hnil, if_neg htype]
      split
      · split
        · exact ⟨_, rfl, s.responder.decryptTransport_staticPriv d.data⟩
        · exact ⟨s, rfl, rfl⟩
      · exact ⟨s, rfl, rfl⟩

/-- The receive loop gets through a sequence of datagrams when none of them is unauthentic. -/
theorem Server.serveAll_ok_iff (hL : L.Implements p view) (ha : AeadAccepts p) (ds : List Datagram)
    (s : Server L) :
    (∃ s', s.serveAll ds = .ok s') ↔ ∀ d ∈ ds, ¬ s.responder.Unauthentic p d.data := by
  induction ds generalizing s with
  | nil => exact ⟨fun _ => by simp, fun _ => ⟨s, rfl⟩⟩
  | cons d ds ih =>
    rw [List.forall_mem_cons]
    rcases s.serve_cases hL ha d with ⟨hbad, err, herr⟩ | ⟨hgood, s', hok, hpriv⟩
    · simp only [serveAll, herr, hbad]
      simp [Except.bind]
    · have hstep : s.serveAll (d :: ds) = s'.serveAll ds := by
        simp only [serveAll, hok]
        rfl
      rw [hstep, ih]
      simp only [hgood, not_false_eq_true, true_and, Responder.unauthentic_congr hpriv]

/-- **The responder survives a datagram** exactly when it is not unauthentic: it fails one of the
checks before the Noise layer, or Noise authenticates it. The receive loop survives a sequence of
datagrams exactly when none of them is unauthentic. -/
theorem handleInitiation_survives (hL : L.Implements p view) (ha : AeadAccepts p) :
    (∀ (r : Responder L) (packet : List UInt8) (e : Bytes 32),
      r.Survives packet e ↔ ¬ r.Unauthentic p packet) ∧
    ∀ (s : Server L) (ds : List Datagram),
      (∃ s', s.serveAll ds = .ok s') ↔ ∀ d ∈ ds, ¬ s.responder.Unauthentic p d.data :=
  ⟨fun r packet e => r.survives_iff hL ha packet e, fun s ds => s.serveAll_ok_iff hL ha ds⟩

/-- A Type 1 packet for the responder around a Noise message. -/
def framedInitiation (r : Responder L) (msg : List UInt8) : List UInt8 :=
  let body := [1, 0, 0, 0] ++ List.replicate 4 0 ++ msg
  body ++ computeMac1 body (responderMac1Key r.staticPub) ++ List.replicate 16 0

theorem framedInitiation_spec (r : Responder L) (msg : List UInt8) (h : msg.length = 108) :
    r.HeaderOk (framedInitiation r msg) ∧ initiationMsg (framedInitiation r msg) = msg := by
  have hbody : ([1, 0, 0, 0] ++ List.replicate 4 (0 : UInt8) ++ msg).length = t1OffMac1 := by
    simp [h, t1OffMac1]
  unfold framedInitiation
  dsimp only
  generalize hmac : computeMac1 ([1, 0, 0, 0] ++ List.replicate 4 0 ++ msg)
    (responderMac1Key r.staticPub) = mac
  have hlen : mac.length = 16 := by rw [← hmac, length_computeMac1]
  rw [List.append_assoc]
  refine ⟨⟨?_, rfl, rfl, ?_⟩, ?_⟩
  · rw [List.length_append, hbody]
    simp [hlen, t1OffMac1, t1Total]
  · rw [span, ← hbody, List.take_left, List.drop_left, Nat.add_sub_cancel_left, hmac,
      List.take_left' hlen]
  · rw [initiationMsg, span, List.append_assoc, List.drop_left' (by simp [t1OffNoise])]
    exact List.take_left' h

/-- The key and the transcript that the static key of a message is authenticated under. -/
def staticAuth (p : Primitives) (staticPriv re : Bytes 32) : Noise.Symmetric × Bytes 32 :=
  Noise.mixKey (c64Suite p)
    (Noise.mixEphemeral (c64Suite p) (initialState p (p.x25519Base staticPriv)) re)
    ((c64Suite p).dh staticPriv re).toList

/-- A tag other than the right one. -/
def badTag (staticPriv re : Bytes 32) : Bytes 16 :=
  let auth := staticAuth rfcPrims staticPriv re
  let tag := ChaChaPoly.tag auth.2 (zero 12) auth.1.h.toList (zero 32)
  put tag 0 (byte tag 0 + 1)

/-- A message whose static key does not authenticate. -/
def badMsg (staticPriv re : Bytes 32) : List UInt8 :=
  re.toList ++ (((zero 32).toList ++ (badTag staticPriv re).toList) ++ List.replicate 28 0)

theorem noiseRead_badMsg {staticPriv re : Bytes 32}
    (h : (c64Suite rfcPrims).dh staticPriv re ≠ zero 32) :
    noiseRead rfcPrims staticPriv (badMsg staticPriv re) = .error .invalidTag := by
  have hre : ofList 32 ((badMsg staticPriv re).take 32) = re := by
    rw [badMsg, List.take_left' (by simp), ofList_toList]
  have hct : ((badMsg staticPriv re).drop 32).take 48 =
      (zero 32).toList ++ (badTag staticPriv re).toList := by
    rw [badMsg, List.drop_left' (by simp), List.take_left' (by simp)]
  have hopen : (rfcPrims.aeadDecrypt (staticAuth rfcPrims staticPriv re).2 (zero 12)
      (staticAuth rfcPrims staticPriv re).1.h.toList (zero 32) (badTag staticPriv re)).1 ≠ true := by
    intro hok
    have htag := (ChaChaPoly.aeadOpen_tag _ _ _ _ _).mp hok
    have hbyte := congrArg (fun t => byte t 0) htag
    simp [badTag] at hbyte
  have hsealed : sealedStatic rfcPrims staticPriv (badMsg staticPriv re) = none := by
    unfold sealedStatic
    dsimp only
    rw [hre, hct]
    unfold Noise.decryptAndHash
    rw [aeadOpen_eq]
    unfold staticAuth at hopen
    rw [if_neg hopen]
    rfl
  rw [noiseRead, hre, if_neg h, hsealed]

/-- A datagram that anyone who knows the responder's public key can send. -/
def badPacket : List UInt8 :=
  framedInitiation (sampleResponder (zero 32)) (badMsg (sampleKey 2) (X25519.base (sampleKey 1)))

/-- It ends `handle_initiation` with an `InvalidTag`. -/
theorem handleInitiation_badPacket :
    ¬ (sampleResponder (zero 32)).Survives badPacket (zero 32) := by
  rw [Responder.survives_iff (rfcNoise_implements rfcPrims) fun _ _ _ _ _ _ => rfl, not_not]
  obtain ⟨hhead, hmsg⟩ := framedInitiation_spec (sampleResponder (zero 32))
    (badMsg (sampleKey 2) (X25519.base (sampleKey 1))) (by simp [badMsg])
  refine ⟨hhead, ?_⟩
  rw [badPacket, hmsg]
  exact noiseRead_badMsg (by decide +kernel)

/-- The responder of `rfcNoise`. -/
theorem handleInitiation_survives_sample :
    (∀ (r : Responder (rfcNoise rfcPrims)) (packet : List UInt8) (e : Bytes 32),
      r.Survives packet e ↔ ¬ r.Unauthentic rfcPrims packet) ∧
    ∀ (s : Server (rfcNoise rfcPrims)) (ds : List Datagram),
      (∃ s', s.serveAll ds = .ok s') ↔ ∀ d ∈ ds, ¬ s.responder.Unauthentic rfcPrims d.data :=
  handleInitiation_survives (rfcNoise_implements rfcPrims) fun _ _ _ _ _ _ => rfl

end C64WireGuard
