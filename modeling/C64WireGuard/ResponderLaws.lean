import C64WireGuard.NoiseLibrary

/-!
# The responder's anti-replay rule

`handleInitiation_cases` is the shape of `handle_initiation`: it raises and changes nothing, or it
commits everything at once, under a timestamp above the greatest seen. `accepted_increasing` is the
induction over calls on top of it, from any responder; `responder_antiReplay` starts it at
`__init__`.
-/

namespace C64WireGuard

open Bytes Blake2s

variable {L : NoiseLib}

/-! ## One initiation -/

/-- The checks of `handle_initiation` before the Noise layer. -/
structure Responder.HeaderOk (r : Responder L) (packet : List UInt8) : Prop where
  length : packet.length = t1Total
  byte0 : packet.getD 0 0 = msgTypeInitiation
  reserved : span packet 1 4 = [0, 0, 0]
  mac1 : computeMac1 (packet.take t1OffMac1) (responderMac1Key r.staticPub) =
    span packet t1OffMac1 (t1OffMac1 + 16)

theorem Responder.handleInitiation_of_headerOk {r : Responder L} {packet : List UInt8}
    (h : r.HeaderOk packet) (e : Bytes 32) :
    r.handleInitiation packet e = r.consumeInitiation packet e := by
  unfold handleInitiation
  rw [if_neg (not_not.mpr h.length), if_neg (not_not.mpr h.byte0), if_neg (not_not.mpr h.reserved)]
  dsimp only
  rw [if_neg (not_not.mpr h.mac1)]

theorem Responder.handleInitiation_of_not_headerOk {r : Responder L} {packet : List UInt8}
    (h : ¬ r.HeaderOk packet) (e : Bytes 32) :
    ∃ err, r.handleInitiation packet e = (r, .error err) ∧ err.isValueError = true := by
  unfold handleInitiation
  by_cases hlen : packet.length = t1Total
  · rw [if_neg (not_not.mpr hlen)]
    by_cases hbyte : packet.getD 0 0 = msgTypeInitiation
    · rw [if_neg (not_not.mpr hbyte)]
      by_cases hres : span packet 1 4 = [0, 0, 0]
      · rw [if_neg (not_not.mpr hres)]
        dsimp only
        rw [if_pos (fun hmac => h ⟨hlen, hbyte, hres, hmac⟩)]
        exact ⟨_, rfl, rfl⟩
      · rw [if_pos hres]
        exact ⟨_, rfl, rfl⟩
    · rw [if_pos hbyte]
      exact ⟨_, rfl, rfl⟩
  · rw [if_pos hlen]
    exact ⟨_, rfl, rfl⟩

theorem length_computeMac1 (msg : List UInt8) (key : Bytes 32) : (computeMac1 msg key).length = 16 := by
  simp [computeMac1]

theorem Responder.buildType2_ok (r : Responder L) {msg : List UInt8} (h : msg.length = 48) :
    ∃ pkt, r.buildType2 msg = .ok pkt ∧ pkt.length = t2Total := by
  unfold buildType2
  dsimp only
  rw [if_pos]
  · refine ⟨_, rfl, ?_⟩
    simp [length_computeMac1, h, t2Total]
  · simp [length_computeMac1, h, t2Total]

/-- The payload the library reads out of an initiation. -/
def Responder.timestampOf (r : Responder L) (packet : List UInt8) : Option (List UInt8) :=
  match L.readMessage (L.startHandshake r.psk r.staticPriv r.peerStaticPub)
      (span packet t1OffNoise t1OffMac1) with
  | .error _ => none
  | .ok (_, timestamp) => some timestamp

/-- **An initiation is rejected without a trace, or accepted** under a timestamp of 12 bytes above
the greatest seen, and then everything is committed. -/
theorem Responder.handleInitiation_cases (hL : L.WritesMsg2) (r : Responder L)
    (packet : List UInt8) (e : Bytes 32) :
    (∃ err, r.handleInitiation packet e = (r, .error err)) ∨
    ∃ noise timestamp response,
      r.handleInitiation packet e =
        (r.commit noise (ofList 4 (span packet t1OffSender t1OffNoise)) timestamp, .ok response) ∧
      r.timestampOf packet = some timestamp ∧ timestamp.length = 12 ∧
      r.stale timestamp = none ∧ response.length = t2Total := by
  by_cases hok : r.HeaderOk packet
  · rw [handleInitiation_of_headerOk hok]
    unfold consumeInitiation timestampOf
    generalize L.readMessage _ _ = read
    rcases read with err | ⟨noise, timestamp⟩
    · exact Or.inl ⟨err, rfl⟩
    · dsimp only
      by_cases hlen : timestamp.length ≠ 12
      · rw [if_pos hlen]
        exact Or.inl ⟨_, rfl⟩
      · rw [if_neg hlen]
        cases hstale : r.stale timestamp with
        | some greatest => exact Or.inl ⟨_, rfl⟩
        | none =>
          cases hwrite : L.writeMessage noise e [] with
          | error err => exact Or.inl ⟨err, rfl⟩
          | ok w =>
            obtain ⟨noise', msg2⟩ := w
            right
            obtain ⟨pkt, hpkt, hlen2⟩ := buildType2_ok
              (r.commit noise' (ofList 4 (span packet t1OffSender t1OffNoise)) timestamp)
              (hL _ _ _ _ hwrite)
            refine ⟨noise', timestamp, pkt, ?_, rfl, not_not.mp hlen, hstale, hlen2⟩
            dsimp only
            rw [hpkt]
  · obtain ⟨err, herr, -⟩ := handleInitiation_of_not_headerOk hok e
    exact Or.inl ⟨err, herr⟩

/-! ## Any sequence of calls -/

/-- A call of a public method. -/
inductive ResponderCall
  | handleInitiation (packet : List UInt8) (ephemeral : Bytes 32)
  | decryptTransport (packet : List UInt8)
  | encryptTransport (plaintext : List UInt8)

/-- The responder after a call. -/
def Responder.call (r : Responder L) : ResponderCall → Responder L
  | .handleInitiation packet e => (r.handleInitiation packet e).1
  | .decryptTransport packet => (r.decryptTransport packet).1
  | .encryptTransport plaintext => (r.encryptTransport plaintext).1

/-- The responder after a sequence of calls. -/
def Responder.calls (r : Responder L) (cs : List ResponderCall) : Responder L :=
  cs.foldl Responder.call r

/-- The timestamp of the initiation a call accepts, if it accepts one. -/
def Responder.acceptedBy (r : Responder L) : ResponderCall → Option (List UInt8)
  | .handleInitiation packet e =>
      match (r.handleInitiation packet e).2 with
      | .ok _ => r.timestampOf packet
      | .error _ => none
  | _ => none

/-- The timestamps of the accepted initiations, oldest first. -/
def Responder.accepted (r : Responder L) : List ResponderCall → List (List UInt8)
  | [] => []
  | c :: cs => (r.acceptedBy c).toList ++ (r.call c).accepted cs

theorem Responder.call_peerStaticPub (hL : L.WritesMsg2) (r : Responder L) (c : ResponderCall) :
    (r.call c).peerStaticPub = r.peerStaticPub := by
  cases c with
  | handleInitiation packet e =>
    rcases r.handleInitiation_cases hL packet e with ⟨err, h⟩ | ⟨_, _, _, h, -⟩
    · simp only [call, h]
    · simp only [call, h]
      rfl
  | decryptTransport packet =>
    simp only [call, decryptTransport]
    split
    · split
      · rfl
      · split <;> rfl
    · rfl
  | encryptTransport plaintext =>
    simp only [call, encryptTransport]
    split
    · split
      · rfl
      · split <;> rfl
    · rfl

/-- The timestamp table changes exactly when a call accepts, and then to what it accepts. -/
theorem Responder.call_greatest (hL : L.WritesMsg2) (r : Responder L) (c : ResponderCall) :
    ((r.acceptedBy c = none ∧ (r.call c).greatestTimestamps = r.greatestTimestamps) ∨
      ∃ ts, r.acceptedBy c = some ts ∧ ts.length = 12 ∧ r.stale ts = none ∧
        (r.call c).greatestTimestamps r.peerStaticPub = some ts) := by
  cases c with
  | handleInitiation packet e =>
    rcases r.handleInitiation_cases hL packet e with ⟨err, h⟩ | ⟨_, ts, _, h, hts, hlen, hnew, -⟩
    · left
      simp only [acceptedBy, call, h, and_self]
    · right
      refine ⟨ts, ?_, hlen, hnew, ?_⟩
      · simp only [acceptedBy, h, hts]
      · simp only [call, h, commit, Function.update_self]
  | decryptTransport packet =>
    left
    refine ⟨rfl, ?_⟩
    simp only [call, decryptTransport]
    split
    · split
      · rfl
      · split <;> rfl
    · rfl
  | encryptTransport plaintext =>
    left
    refine ⟨rfl, ?_⟩
    simp only [call, encryptTransport]
    split
    · split
      · rfl
      · split <;> rfl
    · rfl

theorem Responder.stale_eq_none {r : Responder L} {ts : List UInt8} (h : r.stale ts = none) :
    ∀ g ∈ r.greatestTimestamps r.peerStaticPub, beNat g < beNat ts := by
  intro g hg
  unfold stale at h
  rw [hg] at h
  dsimp only at h
  by_contra hle
  rw [if_pos (Nat.le_of_not_lt hle)] at h
  cases h

/-- From any responder: accepted timestamps increase, start above the greatest seen, and the last
of them is the greatest seen afterwards. -/
theorem Responder.accepted_increasing (hL : L.WritesMsg2) (cs : List ResponderCall)
    (r : Responder L) :
    (r.accepted cs).Pairwise (fun a b => beNat a < beNat b) ∧
    (∀ ts ∈ r.accepted cs, ts.length = 12) ∧
    (∀ ts ∈ r.accepted cs, ∀ g ∈ r.greatestTimestamps r.peerStaticPub, beNat g < beNat ts) ∧
    (r.calls cs).peerStaticPub = r.peerStaticPub ∧
    (r.calls cs).greatestTimestamps r.peerStaticPub =
      (r.accepted cs).getLast?.or (r.greatestTimestamps r.peerStaticPub) := by
  induction cs generalizing r with
  | nil => exact ⟨List.Pairwise.nil, by simp [accepted], by simp [accepted], rfl, rfl⟩
  | cons c cs ih =>
    obtain ⟨hpair, hlen, habove, hpeer, hlast⟩ := ih (r.call c)
    rw [call_peerStaticPub hL] at habove hpeer hlast
    have hcalls : r.calls (c :: cs) = (r.call c).calls cs := rfl
    rw [hcalls]
    rcases r.call_greatest hL c with ⟨hnone, hsame⟩ | ⟨ts, hsome, hts, hnew, hset⟩
    · rw [hsame] at habove hlast
      have hacc : r.accepted (c :: cs) = (r.call c).accepted cs := by
        rw [accepted, hnone]
        rfl
      rw [hacc]
      exact ⟨hpair, hlen, habove, hpeer, hlast⟩
    · rw [hset] at habove hlast
      have hacc : r.accepted (c :: cs) = ts :: (r.call c).accepted cs := by
        rw [accepted, hsome]
        rfl
      rw [hacc]
      have hfirst : ∀ ts' ∈ (r.call c).accepted cs, beNat ts < beNat ts' := fun ts' h =>
        habove ts' h ts rfl
      refine ⟨List.Pairwise.cons hfirst hpair, ?_, ?_, hpeer, ?_⟩
      · intro ts' h
        rcases List.mem_cons.mp h with rfl | h
        · exact hts
        · exact hlen ts' h
      · intro ts' h g hg
        have hg' := stale_eq_none hnew g hg
        rcases List.mem_cons.mp h with rfl | h
        · exact hg'
        · exact hg'.trans (hfirst ts' h)
      · rw [hlast]
        cases (r.call c).accepted cs with
        | nil => rfl
        | cons a as => simp [List.getLast?_cons]

/-- **Anti-replay and atomicity.** Along any sequence of calls the accepted timestamps increase
strictly, the greatest timestamp reported is the last accepted one, and an initiation that raises
leaves the responder as it was. -/
theorem responder_antiReplay (hL : L.WritesMsg2) {staticPriv peerStaticPub : List UInt8}
    {psk : Option (Bytes 32)} {idx : Bytes 4} {r : Responder L}
    (hinit : Responder.init staticPriv peerStaticPub psk idx = .ok r) (cs : List ResponderCall) :
    (r.accepted cs).Pairwise (fun a b => beNat a < beNat b) ∧
    (∀ ts ∈ r.accepted cs, ts.length = 12) ∧
    (r.calls cs).greatestTimestamp none = (r.accepted cs).getLast? ∧
    ∀ packet e err, ((r.calls cs).handleInitiation packet e).2 = .error err →
      ((r.calls cs).handleInitiation packet e).1 = r.calls cs := by
  obtain ⟨hpair, hlen, -, hpeer, hlast⟩ := r.accepted_increasing hL cs
  have hfresh : r.greatestTimestamps = fun _ => none := by
    unfold Responder.init at hinit
    split at hinit
    · cases hinit
    · split at hinit
      · cases hinit
      · cases hinit
        rfl
  refine ⟨hpair, hlen, ?_, ?_⟩
  · rw [Responder.greatestTimestamp, Option.getD_none, hpeer, hlast, hfresh, Option.or_none]
  · intro packet e err herr
    rcases (r.calls cs).handleInitiation_cases hL packet e with ⟨err', h⟩ | ⟨_, _, _, h, -⟩
    · rw [h]
    · rw [h] at herr
      cases herr

/-- Three initiations that are too short, with transport traffic between them. -/
theorem responder_antiReplay_short :
    let r : Responder (rfcNoise rfcPrims) :=
      { staticPriv := ofList 32 (List.replicate 32 1)
        peerStaticPub := ofList 32 (List.replicate 32 2)
        psk := zero 32
        mySenderIdx := zero 4
        noise := none
        c64SenderIdx := none
        sendCounter := 0
        greatestTimestamps := fun _ => none
        lastTimestamp := none
        handshakeComplete := false }
    let cs : List ResponderCall :=
      [.handleInitiation [1] (zero 32), .encryptTransport [], .handleInitiation [1, 0] (zero 32)]
    (r.accepted cs).Pairwise (fun a b => beNat a < beNat b) ∧
    (∀ ts ∈ r.accepted cs, ts.length = 12) ∧
    (r.calls cs).greatestTimestamp none = (r.accepted cs).getLast? ∧
    ∀ packet e err, ((r.calls cs).handleInitiation packet e).2 = .error err →
      ((r.calls cs).handleInitiation packet e).1 = r.calls cs :=
  responder_antiReplay (rfcNoise_writesMsg2 fun _ _ _ _ _ _ => rfl)
    (show Responder.init (List.replicate 32 1) (List.replicate 32 2) none (zero 4) = .ok _ from rfl)
    _

end C64WireGuard
