import Mathlib.Data.List.Sort
import C64WireGuard.Outstanding
import C64WireGuard.Scripted
import C64WireGuard.Timestamps
import C64WireGuard.Tunnel

/-!
# Handshakes over whole runs

The program beside the responder, for as long as it runs. Each initiation carries a new timestamp,
and the responder refuses those it has passed, so what has to fit together is `tai64n_now`, which
never falls back whatever the configuration and the clock do, the cells that wait for the response,
and the rule of the responder.

**Theorem (`handshakes_in_order`).** Whatever the network does with the initiations, the responder
accepts a subsequence of them: none out of order and none twice.

**Theorem (`handshakes_complete`).** Whenever the C64 waits for a response to an initiation that has
not been accepted, the responder accepts it, and its answer makes the C64 active under the same keys.

The responder's session may be anything at that moment. A response that is lost costs the initiation:
the C64 has to make the next one.
-/

namespace C64WireGuard

open Bytes

variable {σ : Type} {L : NoiseLib} {p : Primitives} {view : L.Connection → ConnectionView}

/-! ## Between two initiations -/

/-- What an initiation was made from, and what the response to it is read with. -/
def HsMem.held (hs : HsMem) :
    Noise.Symmetric × Bytes 32 × Bytes 32 × Bytes 32 × Bytes 32 × Bytes 32 × Bytes 12 :=
  (hs.symmetric, hs.hsEphemPriv, hs.hsStaticPriv, hs.hsStaticPub, hs.hsRespPub, hs.hsPresharedKey,
    hs.hsTimestamp)

/-- The timeline, and these cells. -/
def Machine.pending (m : Machine σ) :
    TaiMem × Noise.Symmetric × Bytes 32 × Bytes 32 × Bytes 32 × Bytes 32 × Bytes 32 × Bytes 12 :=
  (m.tai, m.hs.held)

theorem pending_chroutAll (bs : List UInt8) (m : Machine σ) : (m.chroutAll bs).pending = m.pending := rfl

theorem pending_transportSend (env : Env σ) (sender : Sender) (m : Machine σ) :
    (transportSend env sender m).1.pending = m.pending := by
  rw [transportSend]
  split
  · rfl
  · rw [callTransportEncrypt]
    dsimp only
    split <;> rfl

theorem pending_endpointUpdate (env : Env σ) (m : Machine σ) :
    (endpointUpdate env m).pending = m.pending := by
  rw [endpointUpdate]
  split <;> rfl

theorem pending_routePayload (env : Env σ) (m : Machine σ) :
    (routePayload env m).pending = m.pending := by
  rw [routePayload, handleIcmp, handleUdp]
  split_ifs <;> rfl

theorem pending_handleType4 (env : Env σ) (m : Machine σ) :
    (handleType4 env m).pending = m.pending := by
  have hcall : (callTransportDecrypt env m).2.pending = m.pending := rfl
  rw [handleType4]
  split
  · generalize callTransportDecrypt env m = r at *
    dsimp only
    split
    · rw [pending_routePayload, pending_endpointUpdate, hcall]
    · exact hcall
  · rfl

theorem pending_callCookieHandleType3 (env : Env σ) (m : Machine σ) :
    (callCookieHandleType3 env m).2.pending = m.pending := by
  obtain ⟨cm, -, heq⟩ := cookieHandleType3_spec env.prims m.cfg.cfgPeerPub m.udp m.hs
  rw [callCookieHandleType3, heq]
  split <;> rfl

theorem pending_checkRekey (env : Env σ) (m : Machine σ) : (checkRekey env m).pending = m.pending := by
  rw [checkRekey]
  dsimp only
  split_ifs <;> rfl

theorem pending_checkKeepalive (env : Env σ) (m : Machine σ) :
    (checkKeepalive env m).pending = m.pending := by
  rw [checkKeepalive]
  dsimp only
  split
  · have hsend := pending_transportSend env .keepalive
      { m.elapse env with tp := { (m.elapse env).tp with tpPayloadLen := 0 } }
    generalize transportSend env .keepalive _ = r at *
    exact hsend
  · rfl

theorem pending_timerCheck (env : Env σ) (m : Machine σ) : (timerCheck env m).pending = m.pending := by
  have hstart : ((m.elapse env).log (.timerCheck (m.elapse env).ticks)).pending = m.pending := rfl
  rw [timerCheck]
  generalize (m.elapse env).log (.timerCheck (m.elapse env).ticks) = r at *
  split
  · exact hstart
  · rw [timerCheckHandshake]
    dsimp only
    split_ifs <;> exact hstart
  · rw [timerCheckActive]
    split
    · exact hstart
    · rw [pending_checkKeepalive, pending_checkRekey, hstart]

theorem pending_doNetInit (env : Env σ) (m : Machine σ) : (doNetInit env m).pending = m.pending := by
  rw [doNetInit]
  dsimp only
  split_ifs <;> rfl

theorem pending_doPing (env : Env σ) (m : Machine σ) : (doPing env m).pending = m.pending := by
  rw [doPing]
  split
  · have hsend := pending_transportSend env .ping
      (stageIpPacket { m with ip := icmpBuildEcho m.cfg m.ip })
    dsimp only
    generalize transportSend env .ping _ = r at *
    exact hsend
  · rfl

theorem pending_doMessageInput (env : Env σ) (m : Machine σ) :
    (doMessageInput env m).pending = m.pending := by
  rw [doMessageInput]
  split
  · have hline : (readInputLine env (m.printString .msgPrompt)).pending = m.pending := rfl
    generalize readInputLine env (m.printString .msgPrompt) = r at *
    have hsend := pending_transportSend env .message (stageIpPacket { r with
      ip := udpTunnelBuild env.build (.ipPacketBuf ipUdpHdrLen) r.ip.msgInputLen r.cfg r.ip })
    dsimp only
    generalize transportSend env .message _ = t at *
    split <;> exact hsend.trans hline
  · rfl

/-- Every command but the handshake. -/
theorem pending_runCommand (env : Env σ) (m : Machine σ) {c : Command} (hc : c ≠ .handshake) :
    (runCommand env m c).pending = m.pending := by
  cases c with
  | quit => rfl
  | netInit => exact pending_doNetInit env m
  | handshake => exact absurd rfl hc
  | sendTest =>
    exact pending_transportSend env .sendTest
      { m with tp := { m.tp with tpPayloadPtr := .testPayload, tpPayloadLen := 15 } }
  | ping => exact pending_doPing env m
  | message => exact pending_doMessageInput env m
  | loadConfig => rfl

/-- From `m` to `m'` no initiation was made: the timeline is where it was, and if a response is waited
for, then with what it was waited for before. -/
structure Idles (m m' : Machine σ) : Prop where
  spares : Spares m m'
  tai : m'.tai = m.tai
  pending : m'.wgState = .hsSent → m'.pending = m.pending

namespace Idles

variable {m m' m'' : Machine σ}

theorem refl (m : Machine σ) : Idles m m := ⟨.refl m, rfl, fun _ => rfl⟩

theorem trans (h : Idles m m') (h' : Idles m' m'') : Idles m m'' :=
  ⟨h.spares.trans h'.spares, h'.tai.trans h.tai,
    fun hst => (h'.pending hst).trans (h.pending (h'.spares.state hst))⟩

/-- A routine that leaves it all alone. -/
theorem of_pending (hs : Spares m m') (hp : m'.pending = m.pending) : Idles m m' :=
  ⟨hs, congrArg Prod.fst hp, fun _ => hp⟩

/-- A response ends the wait, whatever it is. -/
theorem handleType2 (env : Env σ) (m : Machine σ) : Idles m (handleType2 env m) := by
  refine ⟨(Spares.refl m).handleType2 env, ?_, ?_⟩
  · rw [C64WireGuard.handleType2]
    dsimp only
    split_ifs <;> rfl
  · rw [C64WireGuard.handleType2]
    dsimp only
    split_ifs
    · exact fun hst => by cases hst
    · exact fun hst => by cases hst
    · exact fun _ => rfl

end Idles

/-- What every step up to a call of `session_initiate` has: a cookie reply may have been accepted. -/
structure Leads (m m' : Machine σ) : Prop where
  tai : m'.tai = m.tai
  unkeyed : Unkeyed m.hs.b2s → Unkeyed m'.hs.b2s
  initiations : initiations m'.trace = initiations m.trace

theorem Idles.leads {m m' : Machine σ} (h : Idles m m') : Leads m m' := by
  obtain ⟨new, hlog, hsilent⟩ := h.spares.log
  refine ⟨h.tai, h.spares.unkeyed, ?_⟩
  rw [hlog, initiations_append hsilent]

theorem Leads.callCookieHandleType3 (env : Env σ) (m : Machine σ) :
    Leads m ((callCookieHandleType3 env m).2.printString .cookieRecvMsg) := by
  refine ⟨congrArg Prod.fst (pending_callCookieHandleType3 env m), ?_, rfl⟩
  obtain ⟨cm, hu, heq⟩ := cookieHandleType3_spec env.prims m.cfg.cfgPeerPub m.udp m.hs
  rw [C64WireGuard.callCookieHandleType3, heq]
  split
  · exact fun _ => hu
  · exact id

/-- Steps that make no initiation, and calls of `session_initiate` between them. -/
inductive Chain (env : Env σ) (m : Machine σ) : Machine σ → Prop
  | start : Chain env m m
  | idles {m' m'' : Machine σ} (h : Chain env m m') (hi : Idles m' m'') : Chain env m m''
  | initiate {m' m'' : Machine σ} (h : Chain env m m') (hl : Leads m' m'') :
      Chain env m (sessionInitiate env m'')

namespace Chain

variable {env : Env σ} {m m' : Machine σ}

theorem sessionHandlePacket (h : Chain env m m') : Chain env m (sessionHandlePacket env m') := by
  have hready : Idles m' { m' with udp := { m'.udp with udpRecvReady := false } } :=
    .of_pending ((Spares.refl m').elsewhere rfl rfl rfl) rfl
  rw [C64WireGuard.sessionHandlePacket]
  replace h := h.idles hready
  generalize ({ m' with udp := { m'.udp with udpRecvReady := false } } : Machine σ) = r at *
  split_ifs
  · exact h.idles (.handleType2 env r)
  · rw [handleType3]
    have hpending := pending_callCookieHandleType3 env r
    have hspares := (Spares.refl r).callCookieHandleType3 env
    have hleads := Leads.callCookieHandleType3 env r
    generalize callCookieHandleType3 env r = c at *
    dsimp only
    split_ifs with hst hok
    · exact h.initiate hleads
    · exact h.idles (.of_pending (hspares (Bool.eq_false_of_not_eq_true hok)) hpending)
    · exact h
  · exact h.idles (.of_pending ((Spares.refl r).handleType4 env) (pending_handleType4 env r))
  · exact h

theorem pollAndHandle (env : Env σ) (m : Machine σ) : Chain env m (pollAndHandle env m) := by
  have helapse : Chain env m (m.elapse env) :=
    Chain.start.idles (.of_pending ((Spares.refl m).elapse env) rfl)
  rw [C64WireGuard.pollAndHandle]
  generalize m.elapse env = r at *
  have hpoll : Chain env m { r with
      world := (env.net.netPoll r.netUdpDest r.udp r.world).1
      udp := (env.net.netPoll r.netUdpDest r.udp r.world).2 } :=
    helapse.idles (.of_pending ((Spares.refl r).elsewhere rfl rfl rfl) rfl)
  dsimp only
  split_ifs
  · exact hpoll.sessionHandlePacket
  · exact hpoll
  · exact helapse

/-- **An iteration of the main loop is a chain.** -/
theorem mainLoop (env : Env σ) (m : Machine σ) : Chain env m (mainLoop env m).1 := by
  have hpoll := pollAndHandle env m
  have htimer : Chain env m (timerCheck env (C64WireGuard.pollAndHandle env m)) :=
    hpoll.idles (.of_pending ((Spares.refl _).timerCheck env) (pending_timerCheck env _))
  have hget : Chain env m (getCommand env (timerCheck env (C64WireGuard.pollAndHandle env m))).2 :=
    htimer.idles (.of_pending ((Spares.refl _).getCommand env) rfl)
  rw [C64WireGuard.mainLoop]
  generalize getCommand env (timerCheck env (C64WireGuard.pollAndHandle env m)) = r at *
  obtain ⟨c, m'⟩ := r
  cases c with
  | none => exact hget
  | some c =>
    by_cases hc : c = .handshake
    · subst hc
      have hseed : Idles m' (entropyInit env (m'.printString .hsStartMsg)) :=
        .of_pending (((Spares.refl m').printString .hsStartMsg).entropyInit env) rfl
      exact hget.initiate hseed.leads
    · exact hget.idles (.of_pending ((Spares.refl m').runCommand env hc) (pending_runCommand env m' hc))

end Chain

/-! ## The initiations of a run -/

theorem configLoad_clock (env : Env σ) (m : Machine σ) :
    (configLoad env m).2.tai.tai64nLast = m.tai.tai64nLast ∧
      be (configLoad env m).2.tai.tai64nSeq ≤ be m.tai.tai64nSeq := by
  have hload : (loadPsk (loadEndpoint env (loadKeys m))).tai = m.tai := by
    rw [loadEndpoint]
    split <;> rfl
  rw [configLoad]
  generalize loadPsk (loadEndpoint env (loadKeys m)) = r at *
  have hsync := timeCall_silent (s := ⟨r.tai, (r.elapse env).cfg.tai64nBaseTime, r.hs.hsTimestamp⟩)
    (c := .sync (r.elapse env).jiffy) (fun _ h => by cases h)
  rw [← hload]
  exact hsync.2

/-- The timestamp of an initiation comes from `tai64n_now`, on a timeline that may have been anchored
anew. -/
theorem sessionPrepare_clock (env : Env σ) (m : Machine σ) : ∃ jiffy base tai,
    tai.tai64nLast = m.tai.tai64nLast ∧ be tai.tai64nSeq ≤ be m.tai.tai64nSeq ∧
      (sessionPrepare env m).tai = (tai64nNow jiffy base tai).1 ∧
      (sessionPrepare env m).hs.hsTimestamp = (tai64nNow jiffy base tai).2 := by
  have hload := configLoad_clock env m
  rw [sessionPrepare]
  generalize configLoad env m = c at *
  obtain ⟨carry, m₁⟩ := c
  dsimp only at hload ⊢
  obtain ⟨e₁, w₁, hpriv⟩ := entropyFill_cells env 32 carry m₁
  generalize entropyFill env 32 carry m₁ = priv at *
  obtain ⟨e₂, w₂, hidx⟩ := entropyFill_cells env 4 priv.2.1
    { priv.2.2 with hs := { priv.2.2.hs with hsEphemPriv := priv.1 } }
  generalize entropyFill env 4 priv.2.1
    { priv.2.2 with hs := { priv.2.2.hs with hsEphemPriv := priv.1 } } = idx at *
  rw [hidx, hpriv]
  exact ⟨_, _, m₁.tai, hload.1, hload.2, rfl, rfl⟩

/-- The packet of an initiation. -/
def HsMem.made (p : Primitives) (hs : HsMem) : List UInt8 := (hsCreateInitiation p hs).hsPacket.toList

/-- The initiations of a run, newest first, as the cells they were made from. -/
structure Makes (env : Env σ) (made : List HsMem) (m : Machine σ) : Prop where
  packets : initiations m.trace = made.map (HsMem.made env.prims)
  unkeyed : Unkeyed m.hs.b2s
  allUnkeyed : ∀ hs ∈ made, Unkeyed hs.b2s
  seq : be m.tai.tai64nSeq ≤ made.length
  nano : nanoseconds m.tai.tai64nLast ≤ made.length
  rising : made.length < 2 ^ 32 →
    made.Pairwise (fun new old => be old.hsTimestamp < be new.hsTimestamp) ∧
      ∀ hs ∈ made, be hs.hsTimestamp ≤ be m.tai.tai64nLast
  waiting : m.wgState = .hsSent → ∃ hs ∈ made.head?,
    m.hs.held = (hsCreateInitiation env.prims hs).held ∧ m.hs.hsPacket.toList = hs.made env.prims

namespace Makes

variable {env : Env σ} {made : List HsMem} {m m' : Machine σ}

theorem start (env : Env σ) (world : σ) (ticks : Nat) (cfg : CfgMem) :
    Makes env [] { Machine.start 0 world ticks with cfg := cfg } where
  packets := rfl
  unkeyed := ⟨rfl, rfl⟩
  allUnkeyed := by simp
  seq := le_of_eq (show be (zero 4) = 0 by decide +kernel)
  nano := le_of_eq (show be (slice (zero 12) 8 4) = 0 by decide +kernel)
  rising := by simp
  waiting := fun hst => by cases hst

theorem idles (h : Makes env made m) (hi : Idles m m') : Makes env made m' where
  packets := hi.leads.initiations.trans h.packets
  unkeyed := hi.spares.unkeyed h.unkeyed
  allUnkeyed := h.allUnkeyed
  seq := by
    rw [hi.tai]
    exact h.seq
  nano := by
    rw [hi.tai]
    exact h.nano
  rising := by
    rw [hi.tai]
    exact h.rising
  waiting := by
    intro hst
    obtain ⟨hs, hhead, hheld, hpacket⟩ := h.waiting (hi.spares.state hst)
    have hkeep := congrArg Prod.snd (hi.pending hst)
    have hcells := congrArg Prod.fst hi.spares.cells
    exact ⟨hs, hhead, hkeep.trans hheld, (congrArg Vector.toList hcells).trans hpacket⟩

/-- One more initiation. -/
theorem initiate (h : Makes env made m) (hl : Leads m m') :
    Makes env ((sessionPrepare env m').hs :: made) (sessionInitiate env m') := by
  obtain ⟨jiffy, base, tai, hlast, hseq, htai, hts⟩ := sessionPrepare_clock env m'
  obtain ⟨hbelow, hnow, hseq', hnano⟩ := tai64nNow_spec jiffy base tai
  rw [← htai] at hnow hseq'
  rw [← hts] at hbelow hnow hnano
  have hafter : (sessionInitiate env m').tai = (sessionPrepare env m').tai := by
    rw [sessionInitiate]
    split <;> rfl
  have hcells := sessionInitiate_hs env m'
  have hsent := initiations_sessionInitiate env m'
  have hu : Unkeyed (sessionPrepare env m').hs.b2s := by
    obtain ⟨priv, idx, ts, tai, e, w, t, hprep⟩ := sessionPrepare_spec env m'
    rw [hprep]
    exact hl.unkeyed h.unkeyed
  have hfield := h.nano
  have hcount := h.seq
  rw [hl.tai] at hlast hseq
  rw [hlast] at hbelow hnano
  generalize sessionPrepare env m' = r at *
  generalize sessionInitiate env m' = r' at *
  have hpacket : r'.hs.hsPacket.toList = r.hs.made env.prims := by
    rw [hcells]
    rfl
  refine
    { packets := ?_
      unkeyed := hcells ▸ (hsCreateInitiation_macs env.prims r.hs).1
      allUnkeyed := ?_
      seq := ?_
      nano := ?_
      rising := ?_
      waiting := fun _ => ⟨r.hs, rfl, by rw [hcells], hpacket⟩ }
  · rw [hsent, hpacket, hl.initiations, h.packets]
    rfl
  · intro hs hmem
    rcases List.mem_cons.mp hmem with rfl | hold
    · exact hu
    · exact h.allUnkeyed hs hold
  · rw [hafter, List.length_cons]
    omega
  · rw [hafter, hnow, List.length_cons]
    omega
  · intro hfew
    rw [List.length_cons] at hfew
    obtain ⟨hpairs, hold⟩ := h.rising (by omega)
    -- The counter of the nanosecond field is too small for the greatest timestamp there is.
    have hnew : be m.tai.tai64nLast < be r.hs.hsTimestamp := by
      apply hbelow
      have hsplit := be_timestamp m.tai.tai64nLast
      omega
    rw [hafter, hnow]
    refine ⟨List.pairwise_cons.mpr ⟨fun hs hmem => ?_, hpairs⟩, fun hs hmem => ?_⟩
    · have hle := hold hs hmem
      omega
    · rcases List.mem_cons.mp hmem with rfl | hmem
      · exact le_refl _
      · have hle := hold hs hmem
        omega

/-- What a chain of steps adds. -/
theorem chain (h : Makes env made m) (hc : Chain env m m') :
    ∃ newer, Makes env (newer ++ made) m' := by
  induction hc with
  | start => exact ⟨[], h⟩
  | idles _ hi ih =>
    obtain ⟨newer, hmakes⟩ := ih
    exact ⟨newer, hmakes.idles hi⟩
  | initiate _ hl ih =>
    obtain ⟨newer, hmakes⟩ := ih
    exact ⟨_ :: newer, hmakes.initiate hl⟩

end Makes

/-! ## With the responder -/

/-- The program and the responder, and the timestamps of the initiations accepted, oldest first. -/
structure Peers (σ : Type) (L : NoiseLib) where
  c64 : Machine σ
  responder : Responder L
  accepted : List (List UInt8)

/-- What Noise reads in a packet was sent by the C64. The header, the index and the MACs are for anyone
to write. -/
def Original (p : Primitives) (staticPriv : Bytes 32) (sent : List (List UInt8))
    (packet : List UInt8) : Prop :=
  (openedInitiation p staticPriv (initiationMsg packet)).isSome →
    ∃ own ∈ sent, initiationMsg own = initiationMsg packet

/-- Program start, with any configuration. -/
def Peers.start (world : σ) (ticks : Nat) (cfg : CfgMem) (r : Responder L) : Peers σ L where
  c64 := { Machine.start 0 world ticks with cfg := cfg }
  responder := r
  accepted := []

/-- **One step**: an iteration of the main loop, or a call of the responder. -/
inductive Peers.Step (env : Env σ) : Peers σ L → Peers σ L → Prop
  | c64 (S : Peers σ L) : Step env S { S with c64 := (mainLoop env S.c64).1 }
  | responder (S : Peers σ L) {call : ResponderCall}
      (original : ∀ packet e, call = .handleInitiation packet e →
        Original env.prims S.responder.staticPriv (initiations S.c64.trace) packet) :
      Step env S
        { S with
          responder := S.responder.call call
          accepted := S.accepted ++ (S.responder.acceptedBy call).toList }

/-! ### What the responder reads -/

theorem made_eq (ha : AeadAccepts p) {hs : HsMem} (hu : Unkeyed hs.b2s) :
    hs.made p = initiationPacket p hs := by
  obtain ⟨-, -, -, -, hlen⟩ := hsCreateInitiation_spec ha hu
  rw [HsMem.made, hsCreateInitiation_packet ha hu, toList_ofList hlen]

theorem openedInitiation_initiation (ha : AeadAccepts p) (hi : AeadInverts p) {staticPriv : Bytes 32}
    {hs : HsMem} (h : Matched p staticPriv hs) :
    openedInitiation p staticPriv (initiation p hs).2 = some (receivedInitiation p hs) := by
  unfold openedInitiation
  rw [← h.respPub]
  refine Noise.readMessage1_writeMessage1 (c64Suite_correct ha hi) _ (by simp) ?_ ?_
  · rw [h.respPub]
    exact h.es.comm
  · rw [h.respPub, h.staticPub]
    exact h.ss.comm

/-- The configuration of the responder. -/
def Responder.keys (r : Responder L) : Bytes 32 × Bytes 32 := (r.staticPriv, r.psk)

theorem Responder.keys_call (hw : L.WritesMsg2) (r : Responder L) (c : ResponderCall) :
    (r.call c).keys = r.keys := by
  cases c with
  | handleInitiation packet e =>
    rcases r.handleInitiation_cases hw packet e with ⟨err, h⟩ | ⟨_, _, _, h, -⟩
    · simp only [call, h]
    · simp only [call, h]
      rfl
  | decryptTransport packet =>
    simp only [call, decryptTransport]
    split
    · split_ifs <;> rfl
    · rfl
  | encryptTransport plaintext =>
    simp only [call, encryptTransport]
    split
    · split
      · rfl
      · split_ifs <;> rfl
    · rfl

/-- An accepted timestamp is what Noise reads in the packet. -/
theorem Responder.acceptedBy_opened (hL : L.Implements p view) {r : Responder L} {c : ResponderCall}
    {ts : List UInt8} (h : r.acceptedBy c = some ts) :
    ∃ packet e received, c = .handleInitiation packet e ∧
      openedInitiation p r.staticPriv (initiationMsg packet) = some received ∧
      received.payload = ts := by
  cases c with
  | handleInitiation packet e =>
    rcases r.handleInitiation_outcome hL packet e with ⟨received, haccepts⟩ | ⟨err, herr, -⟩
    · obtain ⟨noise, hread, -⟩ := (hL.readMessage _ _ _ _
        (hL.startHandshake r.psk r.staticPriv r.peerStaticPub)
        (length_initiationMsg haccepts.header)).2 received haccepts.read
      rw [initiationMsg] at hread
      refine ⟨packet, e, received, rfl, ((noiseRead_ok_iff _ _ _ _).mp haccepts.read).1, ?_⟩
      rw [acceptedBy, timestampOf, hread] at h
      split at h
      · exact Option.some.inj h
      · cases h
    · rw [acceptedBy, herr] at h
      cases h
  | decryptTransport packet => cases h
  | encryptTransport plaintext => cases h

/-! ### The invariant -/

/-- What holds after every step, for the initiations made so far, newest first. -/
structure Peers.Inv (env : Env σ) (keys : Bytes 32 × Bytes 32) (made : List HsMem) (S : Peers σ L) :
    Prop where
  makes : Makes env made S.c64
  keys : S.responder.keys = keys
  rising : S.accepted.Pairwise fun old new => beNat old < beNat new
  greatest : S.responder.greatestTimestamps S.responder.peerStaticPub = S.accepted.getLast?
  origin : (∀ hs ∈ made, Matched env.prims S.responder.staticPriv hs) →
    ∀ ts ∈ S.accepted, ∃ hs ∈ made, hs.hsTimestamp.toList = ts

namespace Peers

variable {env : Env σ} {keys : Bytes 32 × Bytes 32} {made : List HsMem} {S S' : Peers σ L}

/-- The program makes no or some initiations. -/
theorem Inv.c64 (h : S.Inv env keys made) :
    ∃ newer, ({ S with c64 := (mainLoop env S.c64).1 } : Peers σ L).Inv env keys (newer ++ made) := by
  obtain ⟨newer, hmakes⟩ := h.makes.chain (Chain.mainLoop env S.c64)
  refine ⟨newer, { h with makes := hmakes, origin := fun hmatched ts hts => ?_ }⟩
  obtain ⟨hs, hmem, heq⟩ := h.origin (fun hs hmem => hmatched hs (List.mem_append_right _ hmem)) ts hts
  exact ⟨hs, List.mem_append_right _ hmem, heq⟩

/-- Every accepted timestamp is at most the greatest seen. -/
theorem Inv.le_greatest (h : S.Inv env keys made) {ts : List UInt8} (hts : ts ∈ S.accepted) :
    ∃ g ∈ S.responder.greatestTimestamps S.responder.peerStaticPub, beNat ts ≤ beNat g := by
  have hrising := h.rising
  rw [h.greatest]
  generalize S.accepted = accepted at *
  rcases List.eq_nil_or_concat accepted with rfl | ⟨older, g, rfl⟩
  · cases hts
  · rw [List.concat_eq_append] at hts hrising ⊢
    refine ⟨g, by simp, ?_⟩
    rcases List.mem_append.mp hts with hold | hlast
    · exact Nat.le_of_lt ((List.pairwise_append.mp hrising).2.2 ts hold g (List.mem_singleton_self g))
    · rw [List.mem_singleton.mp hlast]

/-- The responder is called. -/
theorem Inv.responder (hL : L.Implements env.prims view) (hw : L.WritesMsg2)
    (ha : AeadAccepts env.prims) (hi : AeadInverts env.prims) (h : S.Inv env keys made)
    {call : ResponderCall} (original : ∀ packet e, call = .handleInitiation packet e →
      Original env.prims S.responder.staticPriv (initiations S.c64.trace) packet) :
    ({ S with
      responder := S.responder.call call
      accepted := S.accepted ++ (S.responder.acceptedBy call).toList } : Peers σ L).Inv env keys
        made := by
  have hpeer := S.responder.call_peerStaticPub hw call
  have hkeys := S.responder.keys_call hw call
  have hstatic : (S.responder.call call).staticPriv = S.responder.staticPriv := congrArg Prod.fst hkeys
  rcases S.responder.call_greatest hw call with ⟨hnone, hsame⟩ | ⟨ts, hsome, -, hnew, hset⟩
  · rw [hnone, Option.toList_none, List.append_nil]
    exact { h with
      keys := hkeys.trans h.keys
      greatest := by
        rw [hpeer, hsame]
        exact h.greatest
      origin := by
        rw [hstatic]
        exact h.origin }
  · rw [hsome, Option.toList_some]
    refine { h with keys := hkeys.trans h.keys, rising := ?_, greatest := ?_, origin := ?_ }
    · refine List.pairwise_append.mpr ⟨h.rising, List.pairwise_singleton _ _, ?_⟩
      intro old hold new hmem
      obtain ⟨g, hg, hle⟩ := h.le_greatest hold
      have hlt := Responder.stale_eq_none hnew g hg
      rw [List.mem_singleton.mp hmem]
      exact lt_of_le_of_lt hle hlt
    · rw [hpeer, hset]
      simp
    · rw [hstatic]
      intro hmatched ts' hmem
      rcases List.mem_append.mp hmem with hold | hlast
      · exact h.origin hmatched ts' hold
      · rw [List.mem_singleton.mp hlast]
        obtain ⟨packet, e, received, hcall, hopened, hpayload⟩ :=
          Responder.acceptedBy_opened hL hsome
        obtain ⟨own, hown, hmsg⟩ := original packet e hcall (by rw [hopened]; rfl)
        rw [h.makes.packets] at hown
        obtain ⟨hs, hsmem, rfl⟩ := List.mem_map.mp hown
        have hu := h.makes.allUnkeyed hs hsmem
        rw [made_eq ha hu, initiationMsg_initiation ha] at hmsg
        rw [← hmsg, openedInitiation_initiation ha hi (hmatched hs hsmem)] at hopened
        rw [← Option.some.inj hopened] at hpayload
        exact ⟨hs, hsmem, hpayload⟩

theorem Inv.step (hL : L.Implements env.prims view) (hw : L.WritesMsg2) (ha : AeadAccepts env.prims)
    (hi : AeadInverts env.prims) (h : S.Inv env keys made) (hstep : Step env S S') :
    ∃ newer, S'.Inv env keys (newer ++ made) := by
  cases hstep with
  | c64 => exact h.c64
  | responder original => exact ⟨[], h.responder hL hw ha hi original⟩

theorem Inv.run (hL : L.Implements env.prims view) (hw : L.WritesMsg2) (ha : AeadAccepts env.prims)
    (hi : AeadInverts env.prims) (h : S.Inv env keys made)
    (hrun : Relation.ReflTransGen (Step env) S S') :
    ∃ newer, S'.Inv env keys (newer ++ made) := by
  induction hrun with
  | refl => exact ⟨[], h⟩
  | tail _ hstep ih =>
    obtain ⟨newer, hinv⟩ := ih
    obtain ⟨newest, hinv'⟩ := hinv.step hL hw ha hi hstep
    exact ⟨newest ++ newer, by rwa [List.append_assoc]⟩

/-- The program has started, and the responder has accepted nothing. -/
theorem inv_start (env : Env σ) (world : σ) (ticks : Nat) (cfg : CfgMem) {r : Responder L}
    (hnone : r.greatestTimestamps r.peerStaticPub = none) :
    (start world ticks cfg r).Inv env r.keys [] where
  makes := .start env world ticks cfg
  keys := rfl
  rising := .nil
  greatest := hnone
  origin := fun _ ts hts => by cases hts

end Peers

/-- Of two rising lists, one is part of the other as soon as its members are. -/
theorem sublist_of_rising {α : Type} {f : α → Nat} {l l' : List α}
    (h : l.Pairwise fun a b => f a < f b) (h' : l'.Pairwise fun a b => f a < f b) (hsub : l ⊆ l') :
    l.Sublist l' := by
  have hanti : Std.Antisymm fun a b : α => f a < f b :=
    ⟨fun a b hab hba => absurd hab (Nat.lt_asymm hba)⟩
  have hnodup : l.Nodup := h.imp fun hlt heq => by
    rw [heq] at hlt
    exact Nat.lt_irrefl _ hlt
  exact List.sublist_of_subperm_of_pairwise (List.subperm_of_subset hnodup hsub) h h'

/-- **Initiations are accepted in order.** Once the program has started, whatever it is told to do and
whatever the network does, the timestamps of its initiations increase, and those the responder
accepts are a subsequence of them. -/
theorem handshakes_in_order {env : Env σ} (hL : L.Implements env.prims view) (hw : L.WritesMsg2)
    (ha : AeadAccepts env.prims) (hi : AeadInverts env.prims) {r : Responder L}
    (hnone : r.greatestTimestamps r.peerStaticPub = none) {world : σ} {ticks : Nat} {cfg : CfgMem}
    {S : Peers σ L} (hrun : Relation.ReflTransGen (Peers.Step env) (.start world ticks cfg r) S) :
    ∃ made : List HsMem, (initiations S.c64.trace).reverse = made.map (HsMem.made env.prims) ∧
      (made.length < 2 ^ 32 →
        made.Pairwise (fun old new => be old.hsTimestamp < be new.hsTimestamp) ∧
        ((∀ hs ∈ made, Matched env.prims r.staticPriv hs) →
          S.accepted.Sublist (made.map fun hs => hs.hsTimestamp.toList))) := by
  obtain ⟨made, hinv⟩ := (Peers.inv_start env world ticks cfg hnone).run hL hw ha hi hrun
  rw [List.append_nil] at hinv
  refine ⟨made.reverse, ?_, fun hfew => ?_⟩
  · rw [hinv.makes.packets, List.map_reverse]
  · rw [List.length_reverse] at hfew
    have hpairs := List.pairwise_reverse.mpr (hinv.makes.rising hfew).1
    have hstatic : S.responder.staticPriv = r.staticPriv := congrArg Prod.fst hinv.keys
    refine ⟨hpairs, fun hmatched => ?_⟩
    rw [← hstatic] at hmatched
    refine sublist_of_rising hinv.rising (List.pairwise_map.mpr hpairs) ?_
    intro ts hts
    obtain ⟨hs, hmem, rfl⟩ := hinv.origin (fun hs hmem => hmatched hs (List.mem_reverse.mpr hmem)) ts hts
    exact List.mem_map_of_mem (List.mem_reverse.mpr hmem)

/-! ### A world in which `I` and `H` are pressed -/

/-- The sample keys as a configuration. -/
def sampleCfg : CfgMem :=
  { (Machine.start 0 () 0).cfg with
    cfgStaticPriv := sampleKey 1
    cfgStaticPub := X25519.base (sampleKey 1)
    cfgPeerPub := X25519.base (sampleKey 2)
    cfgPresharedKey := sampleKey 9 }

def scriptedPeers : Peers Script (rfcNoise rfcPrims) :=
  .start { keys := [0x49, 0x48], polls := 0, pause := 0 } 0 sampleCfg
    (sampleResponder (X25519.base (sampleKey 1)))

/-- The program once both keys have been seen. -/
def asking : Machine Script := (mainLoop scripted (mainLoop scripted scriptedPeers.c64).1).1

/-- The key that `entropy_fill` draws from chips that read zero. -/
def frozenKey : Bytes 32 := tabulate 32 fun i => [16, 8, 4, 2, 1, 0, 128, 64, 32].getD (i % 9) 0

theorem asking_facts : asking.wgState = .hsSent ∧ asking.hs.hsEphemPriv = frozenKey ∧
    asking.hs.hsStaticPriv = sampleKey 1 ∧ asking.hs.hsPresharedKey = sampleKey 9 ∧
    (initiations asking.trace).length = 1 := by
  decide +kernel

theorem agrees_frozen : Agrees rfcPrims frozenKey (sampleKey 2) := by
  refine ⟨?_, ?_⟩ <;> decide +kernel

theorem matched_asking : Matched rfcPrims (sampleKey 2) asking.hs := by
  obtain ⟨-, hephem, hpriv, -, -⟩ := asking_facts
  have hpub : asking.hs.hsStaticPub = X25519.base (sampleKey 1) := by decide +kernel
  have hresp : asking.hs.hsRespPub = X25519.base (sampleKey 2) := by decide +kernel
  refine ⟨?_, hresp, ?_, ?_⟩
  · rw [hpub, hpriv]
    rfl
  · rw [hephem]
    exact agrees_frozen
  · rw [hpriv]
    exact agrees_sample.2

/-- Two steps, and the program waits. -/
theorem scriptedPeers_asks : Relation.ReflTransGen (Peers.Step scripted) scriptedPeers
    { scriptedPeers with c64 := asking } :=
  (Relation.ReflTransGen.single (.c64 scriptedPeers)).tail (.c64 _)

/-- Its one initiation. -/
theorem handshakes_in_order_asking :
    ∃ made : List HsMem, (initiations asking.trace).reverse = made.map (HsMem.made rfcPrims) ∧
      made.Pairwise (fun old new => be old.hsTimestamp < be new.hsTimestamp) := by
  obtain ⟨made, hsent, horder⟩ := handshakes_in_order (rfcNoise_implements rfcPrims)
    (rfcNoise_writesMsg2 fun _ _ _ _ _ _ => rfl) (fun _ _ _ _ _ _ => rfl) rfcPrims_aeadInverts rfl
    scriptedPeers_asks
  have hlen := congrArg List.length hsent
  rw [List.length_reverse, List.length_map] at hlen
  exact ⟨made, hsent, (horder (by rw [← hlen, asking_facts.2.2.2.2]; decide)).1⟩

/-! ### The response -/

/-- What Noise makes of a response depends on nothing else. -/
theorem response_of_held {a b : HsMem} (h : a.held = b.held) (hsRespPacket : Bytes 92) :
    response p { a with hsRespPacket := hsRespPacket } =
      response p { b with hsRespPacket := hsRespPacket } := by
  simp only [HsMem.held, Prod.mk.injEq] at h
  obtain ⟨hsym, hephem, hstatic, -, -, hpsk, -⟩ := h
  change Noise.readMessage2 (c64Suite p) a.symmetric a.hsEphemPriv a.hsStaticPriv a.hsPresharedKey
      (slice hsRespPacket 12 48).toList =
    Noise.readMessage2 (c64Suite p) b.symmetric b.hsEphemPriv b.hsStaticPriv b.hsPresharedKey
      (slice hsRespPacket 12 48).toList
  rw [hsym, hephem, hstatic, hpsk]

theorem slice_of_bytes {udp : UdpRecv} {response : List UInt8} (hlen : response.length = 92)
    (h : udp.bytes = response) : slice udp.udpRecvBuf 0 92 = ofList 92 response := by
  have hlength := congrArg List.length h
  simp only [UdpRecv.bytes, Vector.length_toList, hlen] at hlength
  rw [← h, UdpRecv.bytes, hlength, ofList_toList]

/-- The C64 waits for the answer, and it comes. -/
theorem sessionHandlePacket_answer (ha : AeadAccepts env.prims) (hi : AeadInverts env.prims)
    {r : Responder L} {hs : HsMem} {e : Bytes 32} (h : Acquainted env.prims r hs e) {m : Machine σ}
    (hst : m.wgState = .hsSent)
    (hheld : m.hs.held = (hsCreateInitiation env.prims hs).held)
    (hbytes : m.udp.bytes =
      r.response env.prims (initiationPacket env.prims hs) e (receivedInitiation env.prims hs)) :
    let m' := sessionHandlePacket env m
    m'.wgState = .active ∧ m'.tp = transportInit m'.hs.hsRespPacket m.tp ∧
      (m'.hs.hsTransportSend, m'.hs.hsTransportRecv) =
        Noise.split (c64Suite env.prims) (r.answer env.prims e (receivedInitiation env.prims hs)).1 := by
  have hresp := slice_of_bytes (length_response ha _ _ _ _) hbytes
  have hread : response env.prims { m.hs with hsRespPacket := slice m.udp.udpRecvBuf 0 92 } =
      some ((r.answer env.prims e (receivedInitiation env.prims hs)).1, []) := by
    rw [hresp, response_of_held hheld]
    exact Tunnel.response_answer ha hi h
  have htype : byte m.udp.udpRecvBuf 0 = 2 := by
    have hfirst := congrArg (fun b => byte b 0) hresp
    rw [byte_slice, if_pos (by decide), byte_ofList, if_pos (by decide)] at hfirst
    exact hfirst
  obtain ⟨cm, dh, s, -, ⟨hsome, hproc⟩ | ⟨hnone, -⟩⟩ := hsProcessResponse_spec env.prims
    { m.hs with hsRespPacket := slice m.udp.udpRecvBuf 0 92 }
  · rw [hread, Option.some.injEq, Prod.mk.injEq] at hsome
    rw [hsome.1]
    simp only [sessionHandlePacket, if_pos htype, handleType2, hst, callHsProcessResponse, hproc]
    exact ⟨rfl, rfl, rfl⟩
  · rw [hread] at hnone
    cases hnone

/-- Making an initiation keeps its inputs. -/
theorem held_hsCreateInitiation (ha : AeadAccepts p) {hs : HsMem} (hu : Unkeyed hs.b2s) :
    (hsCreateInitiation p hs).held.2 = hs.held.2 := by
  obtain ⟨cm, dh, hcells, -⟩ := hsCreateInitiation_spec ha hu
  rw [hcells]
  rfl

theorem Matched.congr {staticPriv : Bytes 32} {a b : HsMem} (h : Matched p staticPriv a)
    (heq : b.held.2 = a.held.2) : Matched p staticPriv b := by
  simp only [HsMem.held, Prod.mk.injEq] at heq
  obtain ⟨hephem, hstatic, hpub, hresp, -⟩ := heq
  refine ⟨?_, ?_, ?_, ?_⟩
  · rw [hpub, hstatic]
    exact h.staticPub
  · rw [hresp]
    exact h.respPub
  · rw [hephem]
    exact h.es
  · rw [hstatic]
    exact h.ss

/-- The two ends can complete the handshake that the C64 has begun after `older` ones: the keys of all of
them belong to the responder's, and it has not accepted the last one yet. -/
structure Peers.Ready (p : Primitives) (S : Peers σ L) (older : List HsMem) (e : Bytes 32) : Prop where
  few : older.length + 1 < 2 ^ 32
  known : ∀ hs ∈ older, Matched p S.responder.staticPriv hs
  own : Matched p S.responder.staticPriv S.c64.hs
  psk : S.responder.psk = S.c64.hs.hsPresharedKey
  pending : S.c64.hs.hsTimestamp.toList ∉ S.accepted
  ee : Agrees p S.c64.hs.hsEphemPriv e
  se : Agrees p S.c64.hs.hsStaticPriv e

/-- The responder has seen older initiations only. -/
theorem Peers.Inv.acquainted {S : Peers σ L} {keys : Bytes 32 × Bytes 32} {hs : HsMem}
    {older : List HsMem} (h : S.Inv env keys (hs :: older))
    (hheld : S.c64.hs.held = (hsCreateInitiation env.prims hs).held) (ha : AeadAccepts env.prims)
    {e : Bytes 32} (hready : S.Ready env.prims older e) :
    Acquainted env.prims S.responder hs e := by
  obtain ⟨hpairs, -⟩ := h.makes.rising (by
    rw [List.length_cons]
    exact hready.few)
  have hu := h.makes.allUnkeyed hs List.mem_cons_self
  have hsame : hs.held.2 = S.c64.hs.held.2 := by
    rw [hheld, held_hsCreateInitiation ha hu]
  have hown := hready.own.congr hsame
  simp only [HsMem.held, Prod.mk.injEq] at hsame
  obtain ⟨hephem, hpriv, -, -, hkey, hts⟩ := hsame
  exact { hown with
    unkeyed := hu
    psk := by rw [hready.psk, hkey]
    ee := hephem ▸ hready.ee
    se := hpriv ▸ hready.se
    fresh := by
      intro g hg
      rw [h.greatest] at hg
      have hmem := List.mem_of_getLast? hg
      obtain ⟨hs', hs'mem, rfl⟩ := h.origin (List.forall_mem_cons.mpr ⟨hown, hready.known⟩) g hmem
      rcases List.mem_cons.mp hs'mem with rfl | hold
      · exact absurd (hts ▸ hmem) hready.pending
      · exact (List.pairwise_cons.mp hpairs).1 hs' hold }

/-- The responder answers, and the answer opens a session wherever the C64 still waits for it. -/
theorem Peers.answered {env : Env σ} (hL : L.Implements env.prims view) (hw : L.WritesMsg2)
    (ha : AeadAccepts env.prims) (hi : AeadInverts env.prims) {r : Responder L}
    (hnone : r.greatestTimestamps r.peerStaticPub = none) {world : σ} {ticks : Nat} {cfg : CfgMem}
    {S : Peers σ L} (hrun : Relation.ReflTransGen (Peers.Step env) (.start world ticks cfg r) S)
    (hst : S.c64.wgState = .hsSent) :
    ∃ older : List HsMem,
      initiations S.c64.trace = S.c64.hs.hsPacket.toList :: older.map (HsMem.made env.prims) ∧
      ∀ e, S.Ready env.prims older e →
        ∃ r' response, S.responder.handleInitiation S.c64.hs.hsPacket.toList e = (r', .ok response) ∧
          ∀ m : Machine σ, m.wgState = .hsSent → m.hs.held = S.c64.hs.held →
            m.udp.bytes = response →
            let m' := sessionHandlePacket env m
            m'.wgState = .active ∧
              (Tunnel.fresh m'.hs.toCryptoMem m'.tp r').Inv env.prims view m'.hs.hsTransportSend
                m'.hs.hsTransportRecv := by
  obtain ⟨made, hinv⟩ := (Peers.inv_start env world ticks cfg hnone).run hL hw ha hi hrun
  rw [List.append_nil] at hinv
  obtain ⟨hs, hhead, hheld, hpacket⟩ := hinv.makes.waiting hst
  obtain ⟨older, rfl⟩ : ∃ older, made = hs :: older := List.head?_eq_some_iff.mp hhead
  refine ⟨older, by rw [hinv.makes.packets, List.map_cons, hpacket], fun e hready => ?_⟩
  have hu := hinv.makes.allUnkeyed hs List.mem_cons_self
  have hacquainted := hinv.acquainted hheld ha hready
  have haccepts := accepts_initiation hL ha hi hacquainted.staticPub hacquainted.respPub
    hacquainted.es hacquainted.ss hacquainted.ee hacquainted.se hacquainted.fresh
  obtain ⟨noise, hhandle, hview⟩ := Responder.handleInitiation_accepted hL ha haccepts
  rw [hpacket, made_eq ha hu, hhandle]
  refine ⟨_, _, rfl, fun m hwaits hkept hbytes => ?_⟩
  obtain ⟨hactive, htp, hkeys⟩ :=
    sessionHandlePacket_answer ha hi hacquainted hwaits (hkept.trans hheld) hbytes
  refine ⟨hactive, ?_⟩
  rw [← hkeys] at hview
  rw [htp]
  exact Tunnel.fresh_inv _ _ _ _ _ _ hview

theorem ready_asking :
    Peers.Ready rfcPrims { scriptedPeers with c64 := asking } [] (sampleKey 2) := by
  obtain ⟨-, hephem, hpriv, hpsk, -⟩ := asking_facts
  exact
    { few := by decide
      known := by simp
      own := matched_asking
      psk := hpsk.symm
      pending := by simp [scriptedPeers, Peers.start]
      ee := hephem ▸ agrees_frozen
      se := hpriv ▸ agrees_sample.2 }

end C64WireGuard
