import C64WireGuard.ResponderAcceptance

/-!
# The two implementations agree

The C64's initiation is Noise's first message framed by header and MACs
(`hsCreateInitiation_spec`), and so is what the responder parses: `headerOk_initiation` and
`opened_initiation` unwrap the frame on the other side. `handshake_agreement` composes the two
messages: both sides end with the same pair of transport keys, in opposite directions.

X25519 enters through the four secrets of the handshake only (`Agrees`).
-/

namespace C64WireGuard

open Bytes Blake2s

variable {L : NoiseLib} {p : Primitives} {view : L.Connection → ConnectionView}

/-! ## The initiation on the other side -/

/-- Two key pairs arrive at the same secret, and X25519 does not refuse it. -/
structure Agrees (p : Primitives) (a b : Bytes 32) : Prop where
  comm : (c64Suite p).dh a (p.x25519Base b) = (c64Suite p).dh b (p.x25519Base a)
  nonzero : (c64Suite p).dh a (p.x25519Base b) ≠ zero 32

/-- What the responder is expected to read from an initiation. -/
def receivedInitiation (p : Primitives) (m : HsMem) : Noise.Received where
  state := (initiation p m).1
  re := p.x25519Base m.hsEphemPriv
  rs := m.hsStaticPub
  payload := m.hsTimestamp.toList

theorem length_initiationBody (ha : AeadAccepts p) (m : HsMem) :
    (initiationBody p m).length = 116 := by
  have hstatic : ∀ s k, (Noise.encryptAndHash (c64Suite p) s k m.hsStaticPub.toList).2.length = 48 :=
    fun s k => by rw [encryptAndHash_length ha s k (by simp)]; simp
  have hpayload : ∀ s k, (Noise.encryptAndHash (c64Suite p) s k m.hsTimestamp.toList).2.length = 28 :=
    fun s k => by rw [encryptAndHash_length ha s k (by simp)]; simp
  simp only [initiationBody, initiation, Noise.writeMessage1, List.length_append,
    Vector.length_toList, hstatic, hpayload, List.length_cons, List.length_nil]

/-- The responder finds the header and MAC1 in order. -/
theorem headerOk_initiation (ha : AeadAccepts p) {r : Responder L} {m : HsMem}
    (hresp : m.hsRespPub = r.staticPub) : r.HeaderOk (initiationPacket p m) := by
  have hbody := length_initiationBody ha m
  have hpacket : initiationPacket p m = initiationBody p m ++
      ((mac1 m.hsRespPub (initiationBody p m)).toList ++
        (mac2 m.cookieValid m.cookieBuf
          (initiationBody p m ++ (mac1 m.hsRespPub (initiationBody p m)).toList)).toList) :=
    List.append_assoc _ _ _
  refine ⟨?_, rfl, rfl, ?_⟩
  · rw [hpacket]
    simp [hbody, t1Total]
  · rw [hpacket, ← hresp]
    have htake : (initiationBody p m).length = t1OffMac1 := hbody
    rw [span, ← htake, List.take_left, List.drop_left, Nat.add_sub_cancel_left,
      List.take_left' (by simp)]
    rfl

theorem initiationMsg_initiation (ha : AeadAccepts p) (m : HsMem) :
    initiationMsg (initiationPacket p m) = (initiation p m).2 := by
  have hbody := length_initiationBody ha m
  have hlen : (initiation p m).2.length = 108 := by
    simp only [initiationBody, List.length_append, Vector.length_toList, List.length_cons,
      List.length_nil] at hbody
    omega
  have hpacket : ∃ macs, initiationPacket p m =
      ([1, 0, 0, 0] ++ m.hsSenderIdx.toList) ++ ((initiation p m).2 ++ macs) :=
    ⟨_, by simp only [initiationPacket, initiationBody, List.append_assoc]; rfl⟩
  obtain ⟨macs, hpacket⟩ := hpacket
  rw [hpacket, initiationMsg, span, List.drop_left' (by simp [t1OffNoise])]
  exact List.take_left' hlen

/-- The sender index. -/
theorem span_initiation (m : HsMem) :
    ofList 4 (span (initiationPacket p m) t1OffSender t1OffNoise) = m.hsSenderIdx := by
  have hpacket : ∃ rest, initiationPacket p m = [1, 0, 0, 0] ++ (m.hsSenderIdx.toList ++ rest) :=
    ⟨_, by simp only [initiationPacket, initiationBody, List.append_assoc]; rfl⟩
  obtain ⟨rest, hpacket⟩ := hpacket
  rw [hpacket, span, List.drop_left' (by simp [t1OffSender]),
    List.take_left' (by simp [t1OffSender, t1OffNoise]), ofList_toList]

/-- **The responder reads the initiation**, whoever's static key it carries. -/
theorem accepts_initiation (hL : L.Implements p view) (ha : AeadAccepts p) (hi : AeadInverts p)
    {r : Responder L} {m : HsMem} {e : Bytes 32} (hpub : m.hsStaticPub = p.x25519Base m.hsStaticPriv)
    (hresp : m.hsRespPub = p.x25519Base r.staticPriv)
    (hes : Agrees p m.hsEphemPriv r.staticPriv) (hss : Agrees p m.hsStaticPriv r.staticPriv)
    (hee : Agrees p m.hsEphemPriv e) (hse : Agrees p m.hsStaticPriv e)
    (hnew : ∀ g ∈ r.greatestTimestamps r.peerStaticPub, beNat g < be m.hsTimestamp) :
    r.Accepts p (initiationPacket p m) e (receivedInitiation p m) where
  header := headerOk_initiation ha (hresp.trans (hL.publicKey _).symm)
  read := by
    rw [initiationMsg_initiation ha, noiseRead_ok_iff]
    refine ⟨?_, ?_, ?_⟩
    · unfold openedInitiation
      rw [← hresp]
      refine Noise.readMessage1_writeMessage1 (c64Suite_correct ha hi) _ (by simp) ?_ ?_
      · rw [hresp]
        exact hes.comm
      · rw [hresp, hpub]
        exact hss.comm
    · rw [receivedInitiation, ← hes.comm]
      exact hes.nonzero
    · rw [receivedInitiation, hpub, ← hss.comm]
      exact hss.nonzero
  timestamp := by simp [receivedInitiation]
  fresh := by
    unfold Responder.stale
    cases hg : r.greatestTimestamps r.peerStaticPub with
    | none => rfl
    | some g => exact if_neg (Nat.not_le.mpr (hnew g hg))
  ee := by
    rw [receivedInitiation, ← hee.comm]
    exact hee.nonzero
  se := by
    rw [receivedInitiation, hpub, ← hse.comm]
    exact hse.nonzero

/-! ## The response on the C64 -/

/-- The Noise message inside the response. -/
theorem slice_response (ha : AeadAccepts p) (r : Responder L) (packet : List UInt8) (e : Bytes 32)
    (received : Noise.Received) :
    (slice (ofList 92 (r.response p packet e received)) 12 48).toList =
      (r.answer p e received).2 := by
  have hlen := length_response ha r packet e received
  have hmsg : (r.answer p e received).2.length = 48 := length_writeMessage2 ha _ _ _ _ _
  have hpacket : ∃ hdr rest, r.response p packet e received =
      hdr ++ ((r.answer p e received).2 ++ rest) ∧ hdr.length = 12 := by
    refine ⟨[msgTypeResponse, 0, 0, 0] ++ r.mySenderIdx.toList ++
      (ofList 4 (span packet t1OffSender t1OffNoise)).toList,
      computeMac1 (r.responseBody p packet e received) (responderMac1Key r.peerStaticPub) ++
        List.replicate 16 0, ?_, by simp⟩
    simp only [Responder.response, Responder.responseBody, List.append_assoc]
  obtain ⟨hdr, rest, hpacket, hhdr⟩ := hpacket
  rw [toList_slice _ (by decide), toList_ofList (n := 92) hlen, hpacket, List.drop_left' hhdr]
  exact List.take_left' hmsg

/-- **Handshake agreement.** The responder accepts the C64's initiation, the C64 accepts the
responder's answer, and each sends with the key the other receives with. -/
theorem handshake_agreement (hL : L.Implements p view) (ha : AeadAccepts p) (hi : AeadInverts p)
    {r : Responder L} {m : HsMem} {e : Bytes 32} (hu : Unkeyed m.b2s)
    (hpub : m.hsStaticPub = p.x25519Base m.hsStaticPriv)
    (hresp : m.hsRespPub = p.x25519Base r.staticPriv)
    (hpsk : r.psk = m.hsPresharedKey)
    (hes : Agrees p m.hsEphemPriv r.staticPriv) (hss : Agrees p m.hsStaticPriv r.staticPriv)
    (hee : Agrees p m.hsEphemPriv e) (hse : Agrees p m.hsStaticPriv e)
    (hnew : ∀ g ∈ r.greatestTimestamps r.peerStaticPub, beNat g < be m.hsTimestamp) :
    ∃ noise response,
      r.handleInitiation (hsCreateInitiation p m).hsPacket.toList e =
        (r.commit noise m.hsSenderIdx m.hsTimestamp.toList, .ok response) ∧
      response.length = 92 ∧
      (hsProcessResponse p
        { hsCreateInitiation p m with hsRespPacket := ofList 92 response }).1 = true ∧
      view noise =
        .transport
          (hsProcessResponse p
            { hsCreateInitiation p m with hsRespPacket := ofList 92 response }).2.hsTransportSend 0
          (hsProcessResponse p
            { hsCreateInitiation p m with hsRespPacket := ofList 92 response }).2.hsTransportRecv
          0 := by
  obtain ⟨cm, dh, hcells, -, hlen⟩ := hsCreateInitiation_spec ha hu
  have hpacket : (hsCreateInitiation p m).hsPacket.toList = initiationPacket p m := by
    rw [hsCreateInitiation_packet ha hu, toList_ofList hlen]
  have haccepts := accepts_initiation hL ha hi hpub hresp hes hss hee hse hnew
  obtain ⟨noise, hhandle, hview⟩ := Responder.handleInitiation_accepted hL ha haccepts
  rw [span_initiation] at hhandle
  refine ⟨noise, _, by rw [hpacket, hhandle]; rfl, length_response ha _ _ _ _, ?_⟩
  -- The C64 reads the answer.
  have hmsg := slice_response ha r (initiationPacket p m) e (receivedInitiation p m)
  generalize hreply : r.response p (initiationPacket p m) e (receivedInitiation p m) = reply at *
  have hread : response p { hsCreateInitiation p m with hsRespPacket := ofList 92 reply } =
      some ((r.answer p e (receivedInitiation p m)).1, []) := by
    unfold response responseMsg
    rw [hmsg, hcells]
    have hempty : ([] : List UInt8).length ≤ 32 := by simp
    have h := @Noise.readMessage2_writeMessage2 _ (c64Suite_correct ha hi) (initiation p m).1
      m.hsEphemPriv m.hsStaticPriv e (p.x25519Base m.hsEphemPriv) m.hsStaticPub m.hsPresharedKey []
      hempty hee.comm (hpub ▸ hse.comm)
    rw [Responder.answer, hpsk]
    exact h
  obtain ⟨cm', dh', s, -, ⟨hsome, hproc⟩ | ⟨hnone, -⟩⟩ := hsProcessResponse_spec p
    { hsCreateInitiation p m with hsRespPacket := ofList 92 reply }
  · rw [hread, Option.some.injEq, Prod.mk.injEq] at hsome
    rw [hproc, hview, hsome.1]
    exact ⟨rfl, rfl⟩
  · rw [hread] at hnone
    cases hnone

/-! ## On the RFC primitives -/

/-- The C64 of the first secret key, about to initiate to that responder. -/
def sampleInitiator : HsMem :=
  { HsMem.start 0 with
    hsStaticPriv := sampleKey 1
    hsStaticPub := X25519.base (sampleKey 1)
    hsRespPub := X25519.base (sampleKey 2)
    hsEphemPriv := sampleKey 3
    hsSenderIdx := #v[5, 6, 7, 8]
    hsTimestamp := tabulate 12 fun i => UInt8.ofNat i
    hsPresharedKey := sampleKey 9 }

theorem agrees_sample :
    Agrees rfcPrims (sampleKey 3) (sampleKey 2) ∧ Agrees rfcPrims (sampleKey 1) (sampleKey 2) := by
  refine ⟨⟨?_, ?_⟩, ⟨?_, ?_⟩⟩ <;> decide +kernel

/-- The configured peer's handshake. -/
theorem handshake_agreement_sample :
    ∃ noise response,
      (sampleResponder (X25519.base (sampleKey 1))).handleInitiation
          (hsCreateInitiation rfcPrims sampleInitiator).hsPacket.toList (sampleKey 2) =
        ((sampleResponder (X25519.base (sampleKey 1))).commit noise sampleInitiator.hsSenderIdx
          sampleInitiator.hsTimestamp.toList, .ok response) ∧
      response.length = 92 ∧
      (hsProcessResponse rfcPrims
        { hsCreateInitiation rfcPrims sampleInitiator with
          hsRespPacket := ofList 92 response }).1 = true ∧
      noise =
        .transport
          (hsProcessResponse rfcPrims
            { hsCreateInitiation rfcPrims sampleInitiator with
              hsRespPacket := ofList 92 response }).2.hsTransportSend 0
          (hsProcessResponse rfcPrims
            { hsCreateInitiation rfcPrims sampleInitiator with
              hsRespPacket := ofList 92 response }).2.hsTransportRecv 0 :=
  handshake_agreement (rfcNoise_implements rfcPrims) (fun _ _ _ _ _ _ => rfl) rfcPrims_aeadInverts
    (r := sampleResponder (X25519.base (sampleKey 1))) (m := sampleInitiator) (e := sampleKey 2)
    ⟨rfl, rfl⟩ rfl rfl rfl agrees_sample.1 agrees_sample.2 agrees_sample.1 agrees_sample.2
    (fun _ h => nomatch h)

/-! ## Whose initiations -/

/-- **A completed handshake is with the configured peer** exactly when the packet holds the peer's
static key, or is one the responder does not accept in the first place. -/
theorem handleInitiation_peer_iff (hL : L.Implements p view) (ha : AeadAccepts p) (r : Responder L)
    (packet : List UInt8) (e : Bytes 32) :
    ((∃ response, (r.handleInitiation packet e).2 = .ok response) →
      sealedStatic p r.staticPriv (initiationMsg packet) = some r.peerStaticPub) ↔
    (sealedStatic p r.staticPriv (initiationMsg packet) = some r.peerStaticPub ∨
      ¬ ∃ received, r.Accepts p packet e received) := by
  rw [r.handleInitiation_ok_iff hL ha packet e]
  constructor
  · intro h
    by_cases haccepts : ∃ received, r.Accepts p packet e received
    · exact Or.inl (h haccepts)
    · exact Or.inr haccepts
  · rintro (hpeer | hnot) haccepts
    · exact hpeer
    · exact absurd haccepts hnot

/-- The peer's own handshake, at a responder configured for it. -/
theorem handleInitiation_peer_iff_sample :
    ((∃ response,
        ((sampleResponder (X25519.base (sampleKey 1))).handleInitiation
          (initiationPacket rfcPrims sampleInitiator) (sampleKey 2)).2 = .ok response) →
      sealedStatic rfcPrims (sampleKey 2)
        (initiationMsg (initiationPacket rfcPrims sampleInitiator)) =
          some (X25519.base (sampleKey 1))) ↔
    (sealedStatic rfcPrims (sampleKey 2)
        (initiationMsg (initiationPacket rfcPrims sampleInitiator)) =
          some (X25519.base (sampleKey 1)) ∨
      ¬ ∃ received, (sampleResponder (X25519.base (sampleKey 1))).Accepts rfcPrims
        (initiationPacket rfcPrims sampleInitiator) (sampleKey 2) received) :=
  handleInitiation_peer_iff (rfcNoise_implements rfcPrims) (fun _ _ _ _ _ _ => rfl)
    (sampleResponder (X25519.base (sampleKey 1))) _ _

/-- A stranger's handshake: the same initiation, at a responder configured for another peer. -/
theorem handleInitiation_stranger :
    ¬ ((∃ response,
        ((sampleResponder (X25519.base (sampleKey 4))).handleInitiation
          (initiationPacket rfcPrims sampleInitiator) (sampleKey 2)).2 = .ok response) →
      sealedStatic rfcPrims (sampleKey 2)
        (initiationMsg (initiationPacket rfcPrims sampleInitiator)) =
          some (X25519.base (sampleKey 4))) := by
  have haccepts := accepts_initiation (rfcNoise_implements rfcPrims) (fun _ _ _ _ _ _ => rfl)
    rfcPrims_aeadInverts (r := sampleResponder (X25519.base (sampleKey 4))) (m := sampleInitiator)
    (e := sampleKey 2) rfl rfl agrees_sample.1 agrees_sample.2 agrees_sample.1 agrees_sample.2
    (fun _ h => nomatch h)
  obtain ⟨noise, hok, -⟩ := Responder.handleInitiation_accepted (rfcNoise_implements rfcPrims)
    (fun _ _ _ _ _ _ => rfl) haccepts
  intro h
  have hpeer := h ⟨_, by rw [hok]⟩
  have hopened := ((noiseRead_ok_iff _ _ _ _).mp haccepts.read).1
  have hstranger := (sealedStatic_of_opened rfcPrims hopened).1
  have hsame : X25519.base (sampleKey 1) = X25519.base (sampleKey 4) :=
    Option.some.inj (hstranger.symm.trans hpeer)
  revert hsame
  decide +kernel

end C64WireGuard
