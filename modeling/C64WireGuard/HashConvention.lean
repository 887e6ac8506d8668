import C64WireGuard.Initiations
import C64WireGuard.Scripted

/-!
# The convention on the BLAKE2s parameter cells

`blake2s_init` reads `b2s_out_len` and `b2s_key_len`, and most callers rely on somebody else having
left `(32, 0)` there. `Hashes b b'` says that a routine keeps this convention and that every
`blake2s_init` inside it ran under the parameters its caller means. It composes, so each routine has
one lemma, and `sessionCalls_hashes` sums them up over any sequence of session calls.
-/

namespace C64WireGuard

open Bytes

variable {σ : Type}

/-! ## The ghost log of a hash -/

theorem b2sInits_blake2sFill (data : List UInt8) (s : B2s) :
    (blake2sFill data s).1.b2sInits = s.b2sInits := by
  rw [blake2sFill]
  split <;> rfl

theorem b2sInits_blake2sUpdateLoop (fuel : Nat) (data : List UInt8) (s : B2s) :
    (blake2sUpdateLoop fuel data s).b2sInits = s.b2sInits := by
  induction fuel generalizing data s with
  | zero => rfl
  | succ fuel ih =>
      rw [blake2sUpdateLoop]
      split
      · rfl
      · rw [ih, b2sInits_blake2sFill]

theorem b2sInits_updates (chunks : List (List UInt8)) (s : B2s) :
    (chunks.foldl (fun s c => blake2sUpdate c s) s).b2sInits = s.b2sInits := by
  induction chunks generalizing s with
  | nil => rfl
  | cons c cs ih => rw [List.foldl_cons, ih, blake2sUpdate, b2sInits_blake2sUpdateLoop]

/-- A hash logs its one `blake2s_init`. -/
theorem b2sInits_blake2sHash (site : HashSite) (chunks : List (List UInt8)) (s : B2s) :
    (blake2sHash site chunks s).b2sInits = (site, s.b2sOutLen, s.b2sKeyLen) :: s.b2sInits := by
  have hinit : (blake2sInit (s.logInit site)).b2sInits =
      (site, s.b2sOutLen, s.b2sKeyLen) :: s.b2sInits := by
    rw [blake2sInit]
    split <;> rfl
  have hfinal : ∀ s, (blake2sFinal s).b2sInits = s.b2sInits := fun _ => rfl
  rw [blake2sHash, hfinal, b2sInits_updates, hinit]

/-! ## The convention -/

/-- What `(b2s_out_len, b2s_key_len)` is meant to be when a routine hashes. -/
def HashSite.params : HashSite → UInt8 × UInt8
  | .hsComputeMac1 => (16, 32)
  | .hsSetMac2 => (16, 16)
  | _ => (32, 0)

/-- From the convention to the convention, with every `blake2s_init` in between under the parameters
it is meant to run under. -/
def Hashes (b b' : B2s) : Prop :=
  Unkeyed b → Unkeyed b' ∧
    ∃ new, b'.b2sInits = new ++ b.b2sInits ∧ ∀ call ∈ new, call.2 = call.1.params

theorem Hashes.refl (b : B2s) : Hashes b b := fun h => ⟨h, [], rfl, by simp⟩

theorem Hashes.trans {a b c : B2s} (hab : Hashes a b) (hbc : Hashes b c) : Hashes a c := by
  intro ha
  obtain ⟨hb, new, hnew, hall⟩ := hab ha
  obtain ⟨hc, newer, hnewer, hall'⟩ := hbc hb
  refine ⟨hc, newer ++ new, by rw [hnewer, hnew, List.append_assoc], ?_⟩
  intro call hcall
  rcases List.mem_append.mp hcall with h | h
  · exact hall' call h
  · exact hall call h

section Steps

variable {b : B2s}

/-- A hash under the convention, by a routine that means it. -/
theorem Hashes.hash {s : B2s} (h : Hashes b s) {site : HashSite} (hsite : site.params = (32, 0))
    (chunks : List (List UInt8)) : Hashes b (blake2sHash site chunks s) := by
  refine h.trans fun hs => ?_
  obtain ⟨-, hun⟩ := blake2sHash_unkeyed site chunks hs
  refine ⟨hun, [(site, s.b2sOutLen, s.b2sKeyLen)], b2sInits_blake2sHash site chunks s, ?_⟩
  intro call hcall
  rw [List.mem_singleton] at hcall
  subst hcall
  rw [hsite, hs.1, hs.2]

/-- A routine that sets the cells itself. -/
theorem Hashes.set {s : B2s} (h : Hashes b s) :
    Hashes b { s with b2sOutLen := 32, b2sKeyLen := 0 } :=
  h.trans fun _ => ⟨⟨rfl, rfl⟩, [], rfl, by simp⟩

/-- A keyed hash restores the convention. -/
theorem Hashes.keyedMac {s : B2s} (h : Hashes b s) {site : HashSite} {k : Nat}
    (hsite : site.params = (16, UInt8.ofNat k)) (key : Bytes k) (data : List UInt8) :
    Hashes b (keyedMac site key data s) := by
  refine h.trans fun _ => ?_
  refine ⟨⟨rfl, rfl⟩, [(site, 16, UInt8.ofNat k)], b2sInits_blake2sHash site [data] _, ?_⟩
  intro call hcall
  rw [List.mem_singleton] at hcall
  subst hcall
  exact hsite.symm

/-! ## Key derivation and handshake steps -/

theorem Hashes.hmac {m : CryptoMem} (h : Hashes b m.b2s) (key : Bytes 32) (data : List UInt8) :
    Hashes b (hmacBlake2s key data m).b2s := by
  rw [hmacBlake2s]
  apply Hashes.hash _ rfl
  exact h.hash rfl _

theorem Hashes.kdf1 {m : CryptoMem} (h : Hashes b m.b2s) (input : List UInt8) :
    Hashes b (kdf1 input m).b2s := by
  have hprk := h.hmac m.kdfPrk input
  rw [C64WireGuard.kdf1]
  generalize hmacBlake2s m.kdfPrk input m = a at *
  exact Hashes.hmac (m := { a with kdfPrk := a.b2s.b2sHash }) hprk _ _

theorem Hashes.kdf2 {m : CryptoMem} (h : Hashes b m.b2s) (input : List UInt8) :
    Hashes b (kdf2 input m).b2s := by
  have hout := h.kdf1 input
  rw [C64WireGuard.kdf2]
  generalize C64WireGuard.kdf1 input m = a at *
  exact Hashes.hmac (m := { a with kdfHmacBuf := put (copyIn a.kdfHmacBuf 0 a.kdfOut1) 32 2 }) hout
    _ _

theorem Hashes.kdf3 {m : CryptoMem} (h : Hashes b m.b2s) (input : List UInt8) :
    Hashes b (kdf3 input m).b2s := by
  have hout := h.kdf2 input
  rw [C64WireGuard.kdf3]
  generalize C64WireGuard.kdf2 input m = a at *
  exact Hashes.hmac (m := { a with kdfHmacBuf := put (copyIn a.kdfHmacBuf 0 a.kdfOut2) 32 3 }) hout
    _ _

variable {m : HsMem}

theorem Hashes.mixHash (h : Hashes b m.b2s) (data : List UInt8) :
    Hashes b (hsMixHash data m).b2s :=
  h.set.hash rfl _

/-- The key-derivation pattern, for any derivation that keeps the convention. -/
theorem Hashes.mixKey {kdf : List UInt8 → CryptoMem → CryptoMem}
    (hk : ∀ input (c : CryptoMem), Hashes b c.b2s → Hashes b (kdf input c).b2s)
    (h : Hashes b m.b2s) (input : List UInt8) : Hashes b (hsMixKey kdf input m).b2s :=
  hk input { m.toCryptoMem with kdfPrk := m.hsC } h

theorem Hashes.mixDh {kdf : List UInt8 → CryptoMem → CryptoMem}
    (hk : ∀ input (c : CryptoMem), Hashes b c.b2s → Hashes b (kdf input c).b2s)
    (h : Hashes b m.b2s) (p : Primitives) (priv pub : Bytes 32) :
    Hashes b (hsMixDh p kdf priv pub m).b2s :=
  Hashes.mixKey hk (m := hsDh p priv pub m) h _

theorem Hashes.encrypt (h : Hashes b m.b2s) (p : Primitives) (off : Nat) {n : Nat}
    (data : Bytes n) : Hashes b (hsEncrypt p off data m).b2s := by
  rw [hsEncrypt]
  dsimp only
  split
  · exact Hashes.mixHash h _
  · exact Hashes.mixHash h _

/-! ## The handshake -/

theorem Hashes.hsInit (h : Hashes b m.b2s) : Hashes b (hsInit m).b2s :=
  (h.hash rfl _).hash rfl _

theorem Hashes.hsWriteMessage (h : Hashes b m.b2s) (p : Primitives) :
    Hashes b (hsWriteMessage p m).b2s := by
  rw [C64WireGuard.hsWriteMessage]
  apply Hashes.encrypt
  apply Hashes.mixDh fun input c hc => hc.kdf2 input
  apply Hashes.encrypt
  apply Hashes.mixDh fun input c hc => hc.kdf2 input
  apply Hashes.mixKey fun input c hc => hc.kdf1 input
  exact h.mixHash _

theorem Hashes.hsMacs (h : Hashes b m.b2s) : Hashes b (hsMacs m).b2s := by
  have hmac1 : Hashes b (hsComputeMac1 m).b2s := h.keyedMac rfl _ _
  rw [C64WireGuard.hsMacs]
  generalize hsComputeMac1 m = a at *
  dsimp only
  split
  · exact hmac1.keyedMac rfl _ _
  · exact hmac1

theorem Hashes.hsCreateInitiation (h : Hashes b m.b2s) (p : Primitives) :
    Hashes b (hsCreateInitiation p m).b2s := by
  rw [C64WireGuard.hsCreateInitiation]
  apply Hashes.hsMacs
  apply Hashes.hsWriteMessage
  exact h.hsInit

theorem Hashes.hsProcessResponse (h : Hashes b m.b2s) (p : Primitives) :
    Hashes b (hsProcessResponse p m).2.b2s := by
  have hmix : Hashes b (hsMixResponse p m).b2s := by
    rw [hsMixResponse]
    apply Hashes.mixHash
    apply Hashes.mixKey fun input c hc => hc.kdf3 input
    apply Hashes.mixDh fun input c hc => hc.kdf1 input
    apply Hashes.mixDh fun input c hc => hc.kdf1 input
    apply Hashes.mixKey fun input c hc => hc.kdf1 input
    exact h.mixHash _
  rw [C64WireGuard.hsProcessResponse]
  generalize hsMixResponse p m = r at *
  split
  · have hverify : Hashes b (hsStageVerify r).b2s := hmix
    rw [hsDeriveTransport]
    generalize hsStageVerify r = v at *
    have habsorb := hverify.mixHash (slice v.hsRespPacket 44 16).toList
    generalize hsMixHash (slice v.hsRespPacket 44 16).toList v = a at *
    exact Hashes.kdf2 (m := { a.toCryptoMem with kdfPrk := a.hsC }) habsorb []
  · exact hmix

theorem Hashes.cookieHandleType3 (h : Hashes b m.b2s) (p : Primitives) (cfgPeerPub : Bytes 32)
    (udp : UdpRecv) : Hashes b (cookieHandleType3 p cfgPeerPub udp m).2.b2s := by
  have hstage : Hashes b (cookieStage p cfgPeerPub udp m).b2s := h.set.hash rfl _
  rw [C64WireGuard.cookieHandleType3]
  generalize cookieStage p cfgPeerPub udp m = a at *
  split
  · rw [cookieOpen]
    dsimp only
    split
    · exact hstage
    · exact hstage
  · exact h

end Steps

/-! ## Session calls -/

theorem Hashes.sessionInitiate {b : B2s} {m : Machine σ} (h : Hashes b m.hs.b2s) (env : Env σ) :
    Hashes b (sessionInitiate env m).hs.b2s := by
  have hprep : (sessionPrepare env m).hs.b2s = m.hs.b2s := by
    obtain ⟨priv, idx, ts, tai, e, w, t, heq⟩ := sessionPrepare_spec env m
    rw [heq]
    rfl
  rw [sessionInitiate_hs]
  apply Hashes.hsCreateInitiation
  rw [hprep]
  exact h

theorem Hashes.handleType2 {b : B2s} {m : Machine σ} (h : Hashes b m.hs.b2s) (env : Env σ) :
    Hashes b (handleType2 env m).hs.b2s := by
  have hresp := Hashes.hsProcessResponse
    (m := { m.hs with hsRespPacket := slice m.udp.udpRecvBuf 0 92 }) h env.prims
  rw [C64WireGuard.handleType2]
  split
  · rw [callHsProcessResponse]
    generalize C64WireGuard.hsProcessResponse env.prims _ = r at *
    dsimp only
    split
    · exact hresp
    · exact hresp
  · exact h

theorem Hashes.handleType3 {b : B2s} {m : Machine σ} (h : Hashes b m.hs.b2s) (env : Env σ) :
    Hashes b (handleType3 env m).hs.b2s := by
  have hcookie := h.cookieHandleType3 env.prims m.cfg.cfgPeerPub m.udp
  rw [C64WireGuard.handleType3]
  split
  · rw [callCookieHandleType3]
    generalize C64WireGuard.cookieHandleType3 env.prims m.cfg.cfgPeerPub m.udp m.hs = r at *
    dsimp only
    split
    · refine Hashes.sessionInitiate ?_ env
      exact hcookie
    · exact hcookie
  · exact h

/-- Receiving transport data hashes nothing. -/
theorem b2s_handleType4 (env : Env σ) (m : Machine σ) :
    (handleType4 env m).hs.b2s = m.hs.b2s := by
  have hroute : ∀ m' : Machine σ, (routePayload env (endpointUpdate env m')).hs = m'.hs := by
    intro m'
    have hupdate : (endpointUpdate env m').hs = m'.hs := by
      rw [endpointUpdate]
      split <;> rfl
    rw [routePayload, handleIcmp, handleUdp, ← hupdate]
    split_ifs <;> rfl
  have hcall : (callTransportDecrypt env m).2.hs.b2s = m.hs.b2s := by
    rw [callTransportDecrypt]
    obtain ⟨-, _, _, _, heq, hb⟩ | ⟨-, _, _, heq, hb, -⟩ :=
      transportDecrypt_cases env.prims m.hs.hsTransportRecv m.udp m.hs.toCryptoMem
        { m.tp with
          tpPacket := copy16 m.tp.tpPacket 0 m.udp.udpRecvBuf 0 m.udp.udpRecvLen
          tpPacketLen := m.udp.udpRecvLen }
    · rw [heq]
      exact hb
    · rw [heq]
      exact hb
  rw [C64WireGuard.handleType4]
  split
  · generalize callTransportDecrypt env m = r at *
    dsimp only
    split
    · rw [hroute, hcall]
    · exact hcall
  · rfl

theorem Hashes.sessionHandlePacket {b : B2s} {m : Machine σ} (h : Hashes b m.hs.b2s)
    (env : Env σ) : Hashes b (sessionHandlePacket env m).hs.b2s := by
  rw [C64WireGuard.sessionHandlePacket]
  dsimp only
  split_ifs
  · exact Hashes.handleType2 (m := { m with udp := { m.udp with udpRecvReady := false } }) h env
  · exact Hashes.handleType3 (m := { m with udp := { m.udp with udpRecvReady := false } }) h env
  · rw [b2s_handleType4]
    exact h
  · exact h

/-- A call into the session layer: `session_initiate`, or `session_handle_packet` with a datagram in
the receive cells. -/
inductive SessionCall
  | initiate
  | packet (udp : UdpRecv)

/-- Make a call. -/
def sessionCall (env : Env σ) (m : Machine σ) : SessionCall → Machine σ
  | .initiate => sessionInitiate env m
  | .packet udp => sessionHandlePacket env { m with udp := udp }

/-- Calls made one after another. -/
def sessionCalls (env : Env σ) (m : Machine σ) (calls : List SessionCall) : Machine σ :=
  calls.foldl (sessionCall env) m

/-- **The convention holds across any sequence of session calls.** From `(32, 0)` they end in
`(32, 0)`, whatever the datagrams and the outcomes, and every `blake2s_init` they make runs under the
parameters of its routine: `(16, 32)` in `hs_compute_mac1`, `(16, 16)` in `hs_set_mac2`, `(32, 0)`
elsewhere. -/
theorem sessionCalls_hashes (env : Env σ) (m : Machine σ) (calls : List SessionCall)
    (h : Unkeyed m.hs.b2s) :
    Unkeyed (sessionCalls env m calls).hs.b2s ∧
      ∃ new, (sessionCalls env m calls).hs.b2s.b2sInits = new ++ m.hs.b2s.b2sInits ∧
        ∀ call ∈ new, call.2 = call.1.params := by
  have hcalls : ∀ m', Hashes m.hs.b2s m'.hs.b2s →
      Hashes m.hs.b2s (sessionCalls env m' calls).hs.b2s := by
    induction calls with
    | nil => exact fun _ h' => h'
    | cons call calls ih =>
        intro m' h'
        refine ih (sessionCall env m' call) ?_
        cases call with
        | initiate => exact h'.sessionInitiate env
        | packet udp => exact Hashes.sessionHandlePacket (m := { m' with udp := udp }) h' env
  exact hcalls m (Hashes.refl _) h

theorem sessionCalls_hashes_scripted :
    Unkeyed (sessionCalls scripted (scriptedStart [])
      [.initiate, .packet (taggedResponse (zero 16)), .initiate, .packet .start]).hs.b2s :=
  (sessionCalls_hashes scripted (scriptedStart []) _ ⟨rfl, rfl⟩).1

end C64WireGuard
