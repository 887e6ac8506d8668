import C64WireGuard.Initiations
import C64WireGuard.Scripted

/-!
# What a received packet leaves alone

Two laws of `session_handle_packet` that hold in every state, reachable or not:

* `sessionHandlePacket_forged` — in `ACTIVE`, only an authentic Type 4 packet changes a cell of the
  session or calls the adapter;
* `handshake_independent` — what a handshake sends and derives is a function of its inputs. Nothing
  a rejected response mixed into the chaining key, the transcript or the scratch cells survives the
  next `session_initiate`.
-/

namespace C64WireGuard

open Bytes

variable {σ : Type}

/-! ## A live session -/

/-- Everything a live session consists of: state, keys, counters and window, endpoint, timers and
the cookie. -/
def Machine.liveCells (m : Machine σ) :
    WgState × (Bytes 32 × Bytes 32) × (Bytes 8 × Bytes 8 × Bytes 4 × Bytes 256 × Bytes 8) ×
      Endpoint × TimerMem × (Bytes 32 × Bool) :=
  (m.wgState, (m.hs.hsTransportSend, m.hs.hsTransportRecv), m.tp.session, m.wgPeer, m.timer,
    (m.hs.cookieBuf, m.hs.cookieValid))

/-- A call of `net_udp_send` or `net_udp_close`. -/
inductive Event.Adapter : Event → Prop
  | send (dest : Endpoint) (pkt : List UInt8) (carry : Bool) :
      Event.Adapter (.netUdpSend dest pkt carry)
  | close : Event.Adapter .netUdpClose

/-- A datagram of Type 4 that authenticates under the receiving key. -/
def Genuine (p : Primitives) (m : Machine σ) : Prop :=
  byte m.udp.udpRecvBuf 0 = 4 ∧ authentic p m.hs.hsTransportRecv m.udp = true

/-- A Type 4 packet that does not authenticate. -/
theorem handleType4_forged (env : Env σ) {m : Machine σ} (hactive : m.wgState = .active)
    (hforged : authentic env.prims m.hs.hsTransportRecv m.udp = false) :
    (handleType4 env m).liveCells = m.liveCells ∧
      ∃ new, (handleType4 env m).trace = new ++ m.trace ∧ ∀ e ∈ new, ¬ e.Adapter := by
  let tp := { m.tp with
    tpPacket := copy16 m.tp.tpPacket 0 m.udp.udpRecvBuf 0 m.udp.udpRecvLen
    tpPacketLen := m.udp.udpRecvLen }
  have hacc : accepts env.prims m.hs.hsTransportRecv m.udp tp = false := by
    rw [accepts, hforged, Bool.and_false]
  obtain ⟨hyes, -⟩ | ⟨-, c', t', heq, -, hsess⟩ :=
    transportDecrypt_cases env.prims m.hs.hsTransportRecv m.udp m.hs.toCryptoMem tp
  · rw [hacc] at hyes
    cases hyes
  · have hcall : callTransportDecrypt env m =
        (false, ({ m with hs := { m.hs with toCryptoMem := c' }, tp := t' } : Machine σ).log
          (.transportDecrypt m.hs.hsTransportRecv false m.ticks)) := by
      simp only [callTransportDecrypt]
      rw [heq]
    rw [handleType4, if_pos hactive, hcall, if_neg Bool.false_ne_true]
    refine ⟨?_, [.printString .decryptFailMsg, .transportDecrypt m.hs.hsTransportRecv false m.ticks],
      rfl, ?_⟩
    · simp only [Machine.liveCells, Machine.printString, Machine.log, hsess]
      rfl
    · rintro e he
      simp only [List.mem_cons, List.not_mem_nil, or_false] at he
      obtain rfl | rfl := he <;> rintro ⟨⟩

/-- **Only authentic traffic touches a live session.** In `ACTIVE`, a datagram of any type, length
and content that is not an authentic Type 4 packet leaves every cell of the session as it was, and
makes the program neither send nor close. -/
theorem sessionHandlePacket_forged (env : Env σ) (m : Machine σ) (hactive : m.wgState = .active)
    (hforged : ¬ Genuine env.prims m) :
    (sessionHandlePacket env m).liveCells = m.liveCells ∧
      ∃ new, (sessionHandlePacket env m).trace = new ++ m.trace ∧ ∀ e ∈ new, ¬ e.Adapter := by
  have hstay : ∀ m' : Machine σ, m'.liveCells = m.liveCells → m'.trace = m.trace →
      m'.liveCells = m.liveCells ∧ ∃ new, m'.trace = new ++ m.trace ∧ ∀ e ∈ new, ¬ e.Adapter :=
    fun m' hcells htrace => ⟨hcells, [], htrace, by simp⟩
  have hsent : m.wgState ≠ .hsSent := by rw [hactive]; decide
  rw [sessionHandlePacket]
  dsimp only
  split_ifs with h2 h3 h4
  · rw [handleType2, if_neg hsent]
    exact hstay _ rfl rfl
  · rw [handleType3, if_neg hsent]
    exact hstay _ rfl rfl
  · have hauth : authentic env.prims m.hs.hsTransportRecv m.udp = false :=
      Bool.eq_false_of_not_eq_true fun h => hforged ⟨h4, h⟩
    exact handleType4_forged env (m := { m with udp := { m.udp with udpRecvReady := false } })
      hactive hauth
  · exact hstay _ rfl rfl

/-- A keepalive one byte short. -/
def forgedKeepalive : UdpRecv where
  udpRecvBuf := put (zero _) 0 4
  udpRecvLen := 31
  udpRecvLen_le := by decide
  udpRecvSrc := .start
  udpRecvReady := true

theorem sessionHandlePacket_forgedKeepalive :
    let m : Machine Script := { scriptedStart [] with wgState := .active, udp := forgedKeepalive }
    (sessionHandlePacket scripted m).liveCells = m.liveCells ∧
      ∃ new, (sessionHandlePacket scripted m).trace = new ++ m.trace ∧ ∀ e ∈ new, ¬ e.Adapter := by
  intro m
  have hauth : authentic rfcPrims (zero 32) forgedKeepalive = false := rfl
  refine sessionHandlePacket_forged scripted m rfl fun hgenuine => ?_
  exact Bool.false_ne_true (hauth.symm.trans hgenuine.2)

/-! ## Handshakes -/

/-- What a handshake is made from: keys, index, timestamp and cookie. -/
structure HsInputs where
  staticPriv : Bytes 32
  staticPub : Bytes 32
  respPub : Bytes 32
  presharedKey : Bytes 32
  ephemPriv : Bytes 32
  senderIdx : Bytes 4
  timestamp : Bytes 12
  cookieBuf : Bytes 32
  cookieValid : Bool
deriving DecidableEq

/-- The inputs in the cells. -/
def HsMem.inputs (m : HsMem) : HsInputs where
  staticPriv := m.hsStaticPriv
  staticPub := m.hsStaticPub
  respPub := m.hsRespPub
  presharedKey := m.hsPresharedKey
  ephemPriv := m.hsEphemPriv
  senderIdx := m.hsSenderIdx
  timestamp := m.hsTimestamp
  cookieBuf := m.cookieBuf
  cookieValid := m.cookieValid

/-- Two machines that would initiate alike: all inputs but the preshared key, which only the
response uses. -/
def SameInitiation (m m' : HsMem) : Prop :=
  { m.inputs with presharedKey := zero 32 } = { m'.inputs with presharedKey := zero 32 }

variable {p : Primitives} {m m' : HsMem}

theorem initiation_congr (p : Primitives) (h : SameInitiation m m') :
    initiation p m = initiation p m' ∧ initiationPacket p m = initiationPacket p m' := by
  simp only [SameInitiation, HsMem.inputs, HsInputs.mk.injEq] at h
  obtain ⟨hsp, hspub, hrs, -, hep, hidx, hts, hbuf, hval⟩ := h
  have hinit : initiation p m = initiation p m' := by
    simp only [initiation, hsp, hspub, hrs, hep, hts]
  refine ⟨hinit, ?_⟩
  simp only [initiationPacket, initiationBody, hinit, hrs, hidx, hbuf, hval]

theorem sameInitiation_of_inputs (h : m.inputs = m'.inputs) : SameInitiation m m' := by
  rw [SameInitiation, h]

/-- **The initiation does not depend on residual memory**, as far as the hash parameters do not:
whatever else the cells held, the packet, the chaining key, the transcript and the MAC1 key are
functions of the inputs. -/
theorem hsCreateInitiation_independent (ha : AeadAccepts p) (m m' : HsMem)
    (hsame : SameInitiation m m') (hu : Unkeyed m.b2s) (hu' : Unkeyed m'.b2s) :
    (hsCreateInitiation p m).hsPacket = (hsCreateInitiation p m').hsPacket ∧
      (hsCreateInitiation p m).hsC = (hsCreateInitiation p m').hsC ∧
      (hsCreateInitiation p m).hsH = (hsCreateInitiation p m').hsH ∧
      (hsCreateInitiation p m).hsMac1Key = (hsCreateInitiation p m').hsMac1Key := by
  obtain ⟨hstate, hpkt⟩ := initiation_congr p hsame
  have hrs : m.hsRespPub = m'.hsRespPub := congrArg HsInputs.respPub hsame
  refine ⟨?_, ?_, ?_, ?_⟩
  · rw [hsCreateInitiation_packet ha hu, hsCreateInitiation_packet ha hu', hpkt]
  all_goals
    obtain ⟨cm, dh, hcells, -⟩ := hsCreateInitiation_spec ha hu
    obtain ⟨cm', dh', hcells', -⟩ := hsCreateInitiation_spec ha hu'
    rw [hcells, hcells']
  · exact congrArg (fun r => r.1.ck) hstate
  · exact congrArg (fun r => r.1.h) hstate
  · exact congrArg mac1Key hrs

theorem rfcPrims_aeadAccepts : AeadAccepts rfcPrims := fun key nonce ad _ data _ =>
  rfcPrims_accepts key nonce ad data

theorem hsCreateInitiation_independent_start :
    let m : HsMem := { HsMem.start 0 with hsC := tabulate 32 fun i => UInt8.ofNat i }
    (hsCreateInitiation rfcPrims (HsMem.start 0)).hsPacket =
      (hsCreateInitiation rfcPrims m).hsPacket :=
  (hsCreateInitiation_independent rfcPrims_aeadAccepts (HsMem.start 0) _ rfl ⟨rfl, rfl⟩
    ⟨rfl, rfl⟩).1

/-- MAC1's key is computed by `hs_init` and not touched again. -/
theorem hsMac1Key_hsCreateInitiation (p : Primitives) (m : HsMem) :
    (hsCreateInitiation p m).hsMac1Key = (hsInit m).hsMac1Key := by
  have hencrypt : ∀ (off : Nat) {n : Nat} (data : Bytes n) (m : HsMem),
      (hsEncrypt p off data m).hsMac1Key = m.hsMac1Key := by
    intro off n data m
    rw [hsEncrypt]
    dsimp only
    split <;> rfl
  have hmacs : ∀ m : HsMem, (hsMacs m).hsMac1Key = m.hsMac1Key := by
    intro m
    rw [hsMacs]
    dsimp only
    split <;> rfl
  have hhash : ∀ data m, (hsMixHash data m).hsMac1Key = m.hsMac1Key := fun _ _ => rfl
  have hkey : ∀ kdf input m, (hsMixKey kdf input m).hsMac1Key = m.hsMac1Key := fun _ _ _ => rfl
  have hdh : ∀ kdf priv pub m, (hsMixDh p kdf priv pub m).hsMac1Key = m.hsMac1Key :=
    fun _ _ _ _ => rfl
  rw [hsCreateInitiation, hmacs]
  simp only [hsWriteMessage, hencrypt, hdh, hkey, hhash]
  rfl

/-- MAC1's key under any parameters: a keyed hash when `b2s_key_len` is not zero. -/
theorem hsMac1Key_hsInit {m : HsMem} (hout : m.b2s.b2sOutLen = 32)
    (hkey : m.b2s.b2sKeyLen.toNat ≤ 64) :
    (hsInit m).hsMac1Key =
      Blake2s.digest 32 (b2sKey m.b2s) (wgMac1Label ++ m.hsRespPub.toList) := by
  obtain ⟨ho, hk, hb⟩ := blake2sHash_params .hsInit [wgHInit.toList, m.hsRespPub.toList] m.b2s
  have hspec := blake2sHash_spec .hsInit [wgMac1Label, m.hsRespPub.toList]
    (blake2sHash .hsInit [wgHInit.toList, m.hsRespPub.toList] m.b2s) (by rw [hk]; exact hkey)
  have hsame : b2sKey (blake2sHash .hsInit [wgHInit.toList, m.hsRespPub.toList] m.b2s) =
      b2sKey m.b2s := by
    rw [b2sKey, b2sKey, hk, hb]
  rw [ho, hout, hsame] at hspec
  have hcell : (hsInit m).hsMac1Key = (blake2sHash .hsInit [wgMac1Label, m.hsRespPub.toList]
      (blake2sHash .hsInit [wgHInit.toList, m.hsRespPub.toList] m.b2s)).b2sHash := rfl
  rw [hcell, hspec, List.flatten_cons, List.flatten_cons, List.flatten_nil, List.append_nil]
  exact copyIn_zero_full _ _

/-- With `b2s_key_len` at 1, as an earlier program may leave it, the first hashes are keyed. -/
theorem hsCreateInitiation_residual :
    SameInitiation (HsMem.start 0) (HsMem.start 1) ∧
      (hsCreateInitiation rfcPrims (HsMem.start 0)).hsMac1Key ≠
        (hsCreateInitiation rfcPrims (HsMem.start 1)).hsMac1Key := by
  refine ⟨rfl, ?_⟩
  rw [hsMac1Key_hsCreateInitiation, hsMac1Key_hsCreateInitiation,
    hsMac1Key_hsInit rfl (by decide), hsMac1Key_hsInit rfl (by decide)]
  decide +kernel

/-- Two initiators with the same inputs read a response alike. -/
theorem response_congr (ha : AeadAccepts p) (hu : Unkeyed m.b2s) (hu' : Unkeyed m'.b2s)
    (h : m.inputs = m'.inputs) (pkt : Bytes 92) :
    response p { hsCreateInitiation p m with hsRespPacket := pkt } =
      response p { hsCreateInitiation p m' with hsRespPacket := pkt } := by
  obtain ⟨cm, dh, hcells, -⟩ := hsCreateInitiation_spec ha hu
  obtain ⟨cm', dh', hcells', -⟩ := hsCreateInitiation_spec ha hu'
  have hstate := (initiation_congr p (sameInitiation_of_inputs h)).1
  simp only [HsMem.inputs, HsInputs.mk.injEq] at h
  obtain ⟨hsp, -, -, hpsk, hep, -⟩ := h
  rw [hcells, hcells']
  simp only [response, responseMsg, HsMem.symmetric, HsMem.write, hsp, hpsk, hep, hstate]

/-- What Noise makes of a response decides the verdict and the keys. -/
theorem hsProcessResponse_congr (h : response p m = response p m') :
    (hsProcessResponse p m).1 = (hsProcessResponse p m').1 ∧
      ((hsProcessResponse p m).1 = true →
        (hsProcessResponse p m).2.hsTransportSend = (hsProcessResponse p m').2.hsTransportSend ∧
        (hsProcessResponse p m).2.hsTransportRecv = (hsProcessResponse p m').2.hsTransportRecv) := by
  obtain ⟨cm, dh, s, -, hcase⟩ := hsProcessResponse_spec p m
  obtain ⟨cm', dh', s', -, hcase'⟩ := hsProcessResponse_spec p m'
  rcases hcase with ⟨hr, heq⟩ | ⟨hr, heq⟩ <;> rcases hcase' with ⟨hr', heq'⟩ | ⟨hr', heq'⟩
  · have hs : s = s' := by
      rw [h, hr'] at hr
      injection hr with hr
      injection hr with hr
      exact hr.symm
    subst hs
    rw [heq, heq']
    exact ⟨rfl, fun _ => ⟨rfl, rfl⟩⟩
  · rw [h, hr'] at hr
    cases hr
  · rw [h, hr'] at hr
    cases hr
  · rw [heq, heq']
    exact ⟨rfl, fun hfalse => absurd hfalse Bool.false_ne_true⟩

/-- The cells a rejected response leaves alone, and the convention it leaves. -/
theorem hsProcessResponse_rejected (hno : (hsProcessResponse p m).1 = false) :
    (hsProcessResponse p m).2.hsTransportSend = m.hsTransportSend ∧
      (hsProcessResponse p m).2.hsTransportRecv = m.hsTransportRecv ∧
      Unkeyed (hsProcessResponse p m).2.b2s := by
  obtain ⟨cm, dh, s, hu, ⟨-, heq⟩ | ⟨-, heq⟩⟩ := hsProcessResponse_spec p m
  · rw [heq] at hno
    cases hno
  · rw [heq]
    exact ⟨rfl, rfl, hu⟩

/-- A Type 2 packet in `HS_SENT`, by its verdict: the state it leads to, and the handshake cells. -/
theorem sessionHandlePacket_type2 {σ : Type} (env : Env σ) {m : Machine σ}
    (hst : m.wgState = .hsSent) (htype : byte m.udp.udpRecvBuf 0 = 2) :
    let r := hsProcessResponse env.prims { m.hs with hsRespPacket := slice m.udp.udpRecvBuf 0 92 }
    (sessionHandlePacket env m).wgState = (if r.1 then .active else .idle) ∧
      (sessionHandlePacket env m).hs = r.2 := by
  simp only [sessionHandlePacket, if_pos htype, handleType2, if_pos hst, callHsProcessResponse]
  generalize hsProcessResponse env.prims
    { m.hs with hsRespPacket := slice m.udp.udpRecvBuf 0 92 } = r
  obtain ⟨ok, hs⟩ := r
  cases ok with
  | true => exact ⟨rfl, rfl⟩
  | false => exact ⟨rfl, rfl⟩

/-- A rejected response tears the handshake down and leaves the transport cells alone. -/
theorem sessionHandlePacket_rejected {σ : Type} (env : Env σ) {m : Machine σ}
    (hst : m.wgState = .hsSent) (htype : byte m.udp.udpRecvBuf 0 = 2)
    (hno : (hsProcessResponse env.prims
      { m.hs with hsRespPacket := slice m.udp.udpRecvBuf 0 92 }).1 = false) :
    let r := sessionHandlePacket env m
    r.hs.hsTransportSend = m.hs.hsTransportSend ∧ r.hs.hsTransportRecv = m.hs.hsTransportRecv ∧
      r.tp = m.tp ∧ r.wgState = .idle ∧ r.timer.hsTimerArmed = false ∧
      .netUdpClose ∈ r.trace.take 2 ∧ Unkeyed r.hs.b2s := by
  obtain ⟨hsend, hrecv, hun⟩ := hsProcessResponse_rejected hno
  simp only [sessionHandlePacket, if_pos htype, handleType2, if_pos hst, callHsProcessResponse]
  generalize hsProcessResponse env.prims
    { m.hs with hsRespPacket := slice m.udp.udpRecvBuf 0 92 } = r at *
  obtain ⟨ok, hs⟩ := r
  dsimp only at hno
  subst hno
  exact ⟨hsend, hrecv, rfl, rfl, rfl, List.mem_cons_of_mem _ (List.mem_cons_self ..), hun⟩

theorem sessionPrepare_unkeyed {σ : Type} (env : Env σ) {m : Machine σ} (h : Unkeyed m.hs.b2s) :
    Unkeyed (sessionPrepare env m).hs.b2s := by
  obtain ⟨priv, idx, ts, tai, e, w, t, heq⟩ := sessionPrepare_spec env m
  rw [heq]
  exact h

/-- Two machines with the same inputs send the same initiation and treat a response to it alike. -/
theorem sessionInitiate_congr {σ σ' : Type} {env : Env σ} {env' : Env σ'}
    (hprims : env.prims = env'.prims) (ha : AeadAccepts env.prims) {m : Machine σ}
    {m' : Machine σ'} (hu : Unkeyed m.hs.b2s) (hu' : Unkeyed m'.hs.b2s)
    (hin : (sessionPrepare env m).hs.inputs = (sessionPrepare env' m').hs.inputs) :
    (sessionInitiate env m).hs.hsPacket = (sessionInitiate env' m').hs.hsPacket ∧
      ∀ pkt : Bytes 92,
        response env.prims { (sessionInitiate env m).hs with hsRespPacket := pkt } =
          response env.prims { (sessionInitiate env' m').hs with hsRespPacket := pkt } := by
  rw [sessionInitiate_hs, sessionInitiate_hs, ← hprims]
  have hb := sessionPrepare_unkeyed env hu
  have hb' := sessionPrepare_unkeyed env' hu'
  generalize (sessionPrepare env m).hs = a at *
  generalize (sessionPrepare env' m').hs = b at *
  refine ⟨?_, response_congr ha hb hb' hin⟩
  rw [hsCreateInitiation_packet ha hb, hsCreateInitiation_packet ha hb',
    (initiation_congr env.prims (sameInitiation_of_inputs hin)).2]

/-- **A rejected response leaves no trace.** It keeps the transport cells as they were and ends in
`IDLE`, disarmed, with the socket closed. And from any state that keeps the hash convention, what a
handshake sends, whether a response to it is accepted, and under which keys, is what it is from any
other such state with the same inputs. -/
theorem handshake_independent {σ σ' : Type} (env : Env σ) (env' : Env σ')
    (hprims : env.prims = env'.prims) (ha : AeadAccepts env.prims) :
    (∀ m : Machine σ, m.wgState = .hsSent → byte m.udp.udpRecvBuf 0 = 2 →
      (hsProcessResponse env.prims
        { m.hs with hsRespPacket := slice m.udp.udpRecvBuf 0 92 }).1 = false →
      let r := sessionHandlePacket env m
      r.hs.hsTransportSend = m.hs.hsTransportSend ∧ r.hs.hsTransportRecv = m.hs.hsTransportRecv ∧
        r.tp = m.tp ∧ r.wgState = .idle ∧ r.timer.hsTimerArmed = false ∧
        .netUdpClose ∈ r.trace.take 2 ∧ Unkeyed r.hs.b2s) ∧
      ∀ (m : Machine σ) (m' : Machine σ'), Unkeyed m.hs.b2s → Unkeyed m'.hs.b2s →
        (sessionPrepare env m).hs.inputs = (sessionPrepare env' m').hs.inputs →
        let r := sessionInitiate env m
        let r' := sessionInitiate env' m'
        r.hs.hsPacket = r'.hs.hsPacket ∧
          ∀ udp : UdpRecv, byte udp.udpRecvBuf 0 = 2 → r.wgState = .hsSent → r'.wgState = .hsSent →
            let t := sessionHandlePacket env { r with udp := udp }
            let t' := sessionHandlePacket env' { r' with udp := udp }
            t.wgState = t'.wgState ∧
              (t.wgState = .active →
                t.hs.hsTransportSend = t'.hs.hsTransportSend ∧
                t.hs.hsTransportRecv = t'.hs.hsTransportRecv) := by
  refine ⟨fun m hst htype hno => sessionHandlePacket_rejected env hst htype hno, ?_⟩
  intro m m' hu hu' hin
  obtain ⟨hpkt, hresp⟩ := sessionInitiate_congr hprims ha hu hu' hin
  dsimp only
  generalize sessionInitiate env m = r at *
  generalize sessionInitiate env' m' = r' at *
  refine ⟨hpkt, fun udp htype hst hst' => ?_⟩
  obtain ⟨hverdict, hkeys⟩ := hsProcessResponse_congr (hresp (slice udp.udpRecvBuf 0 92))
  obtain ⟨hstate, hcells⟩ := sessionHandlePacket_type2 env (m := { r with udp := udp }) hst htype
  obtain ⟨hstate', hcells'⟩ :=
    sessionHandlePacket_type2 env' (m := { r' with udp := udp }) hst' htype
  rw [← hprims] at hstate' hcells'
  rw [hstate, hstate', hcells, hcells']
  refine ⟨by rw [hverdict], fun hactive => hkeys ?_⟩
  by_contra hno
  rw [if_neg hno] at hactive
  cases hactive

/-- An initiator that is about to reject a response with a wrong tag. -/
def tampered : Machine Script :=
  { scriptedStart [] with
    wgState := .hsSent
    udp := taggedResponse (put (openingTag (scriptedStart []).hs) 0
      (byte (openingTag (scriptedStart []).hs) 0 + 1)) }

/-- Program start, with other values where a rejected response would have left its own. -/
def poisoned : Machine Script :=
  { scriptedStart [] with
    hs := { (scriptedStart []).hs with
      hsC := tabulate 32 fun _ => 0x5a
      hsH := tabulate 32 fun _ => 0xa5
      kdfOut1 := tabulate 32 fun i => UInt8.ofNat i
      poly1305Tag := tabulate 16 fun _ => 0xff } }

theorem handshake_independent_poisoned :
    (sessionHandlePacket scripted tampered).wgState = .idle ∧
      (sessionInitiate scripted (scriptedStart [])).hs.hsPacket =
        (sessionInitiate scripted poisoned).hs.hsPacket := by
  have h := handshake_independent scripted scripted rfl rfcPrims_aeadAccepts
  have hno : (hsProcessResponse scripted.prims
      { tampered.hs with hsRespPacket := slice tampered.udp.udpRecvBuf 0 92 }).1 = false := by
    apply Bool.eq_false_of_not_eq_true
    intro hok
    have htag := (hsProcessResponse_taggedResponse (scriptedStart []).hs _).mp hok
    generalize openingTag (scriptedStart []).hs = tag at htag
    have hbyte : byte tag 0 + 1 = byte tag 0 := by
      nth_rewrite 2 [← htag]
      rw [byte_put, if_pos (by decide)]
    exact absurd hbyte (by simp)
  refine ⟨(h.1 tampered rfl (byte_taggedResponse _) hno).2.2.2.1, ?_⟩
  exact (h.2 (scriptedStart []) poisoned ⟨rfl, rfl⟩ ⟨rfl, rfl⟩ (by decide +kernel)).1

end C64WireGuard
