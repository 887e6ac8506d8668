import C64WireGuard.Conformance

/-!
# Laws of every run

What the session protocol says about the program, now that every run is known to conform
(`run_settled`): nonces are never reused, the state machine only moves as it should, transport data
belongs to a live session as far as the test command does, and an expired session is dropped by the
first `timer_check` that sees it.
-/

namespace C64WireGuard

open Bytes

variable {σ : Type} {strict : Bool}

/-! ## Settled logs -/

/-- The calls of a settled log that oblige something are not its newest. -/
theorem Settled.log {m : Machine σ} (h : Settled strict m) :
    ∃ s, Allowed strict m.trace s ∧ s.phase = .free := by
  obtain ⟨s, hs⟩ := h
  exact ⟨s, hs.log, hs.phase⟩

/-- The keys in the cells are those of the newest accepted response. -/
theorem Settled.keys {m : Machine σ} (h : Settled strict m) :
    (m.hs.hsTransportSend, m.hs.hsTransportRecv) = keyCells (latestKeys m.trace) := by
  obtain ⟨s, hs⟩ := h
  have hsend : m.hs.hsTransportSend = (keyCells s.keys).1 := hs.send
  have hrecv : m.hs.hsTransportRecv = (keyCells s.keys).2 := hs.recv
  rw [hsend, hrecv, (Allowed.summary hs.log).1]
  rfl

/-- `wg_state` is what was last written to it. -/
theorem Settled.state {m : Machine σ} (h : Settled strict m) :
    m.wgState = latestState m.trace := by
  obtain ⟨s, hs⟩ := h
  exact hs.state.trans (Allowed.summary hs.log).2.1

/-! ## Nonces -/

theorem transportBuildNonce_inj {c c' : Bytes 8}
    (h : transportBuildNonce c = transportBuildNonce c') : c = c' := by
  have hslice := congrArg (fun n => slice n 4 8) h
  simpa only [transportBuildNonce, slice_copyIn_self _ _ (show 4 + 8 ≤ 12 by decide)] using hslice

/-- **No nonce is used twice.** In every run, two packets encrypted with no accepted response in
between are encrypted under the same key and different nonces; a counter is the number of packets
since the counters were last reset, and below `2^60`; the keys are always those of the newest
accepted response; and the counters are reset right after it. -/
theorem run_nonces (env : Env σ) (b2sKeyLen : UInt8) (world : σ) (ticks n : Nat) :
    let m := run env n (Machine.start b2sKeyLen world ticks)
    (∀ newer between older sender sender' state state' key key' counter counter' t t',
        m.trace = newer ++ .transportEncrypt sender' state' key' counter' t' ::
          (between ++ .transportEncrypt sender state key counter t :: older) →
        (∀ keys, .hsProcessResponse (some keys) ∉ between) →
        key' = key ∧ counter' ≠ counter ∧
          transportBuildNonce counter' ≠ transportBuildNonce counter) ∧
      (∀ newer older sender state key counter t,
        m.trace = newer ++ .transportEncrypt sender state key counter t :: older →
        key = (keyCells (latestKeys older)).1 ∧ le counter = encryptedSince older ∧
          le counter < 2 ^ 60) ∧
      (∀ newer older key ok t, m.trace = newer ++ .transportDecrypt key ok t :: older →
        key = (keyCells (latestKeys older)).2) ∧
      (m.hs.hsTransportSend, m.hs.hsTransportRecv) = keyCells (latestKeys m.trace) ∧
      ∀ newer older keys, m.trace = newer ++ .hsProcessResponse (some keys) :: older →
        ∃ newer', newer = newer' ++ [.transportInit] := by
  intro m
  have hset : Settled false m := run_settled (start_settled _ _ _) env n (by simp)
  obtain ⟨s, hlog, hphase⟩ := hset.log
  refine ⟨?_, ?_, ?_, hset.keys, ?_⟩
  · intro newer between older sender sender' state state' key key' counter counter' t t' htrace hno
    rw [htrace] at hlog
    obtain ⟨hkey, hlt⟩ := hlog.encrypt_encrypt hno
    have hne : counter' ≠ counter := by
      rintro rfl
      exact absurd hlt (Nat.lt_irrefl _)
    exact ⟨hkey, hne, fun hc => hne (transportBuildNonce_inj hc)⟩
  · intro newer older sender state key counter t htrace
    rw [htrace] at hlog
    obtain ⟨-, -, hkey, hctr, hlt⟩ := hlog.encrypt
    exact ⟨hkey, hctr, hlt⟩
  · intro newer older key ok t htrace
    rw [htrace] at hlog
    exact hlog.decrypt.2
  · intro newer older keys htrace
    rw [htrace] at hlog
    exact hlog.install hphase

/-! ## The state machine -/

/-- Where a send fails, `session_initiate` ends in `IDLE`, disarmed. -/
theorem sessionInitiate_failed (env : Env σ) {m : Machine σ}
    (h : (sendInitiation env (sessionPrepare env m)).2 = true) :
    (sessionInitiate env m).wgState = .idle ∧ (sessionInitiate env m).timer.hsTimerArmed = false := by
  rw [sessionInitiate, if_pos h]
  exact ⟨rfl, rfl⟩

/-- **The session state machine.** In every run the deadline is armed exactly in `HS_SENT`, and
`wg_state` only moves to `HS_SENT` after a Type 1 packet went out, from `HS_SENT` to `ACTIVE` after a
response was accepted and the counters were reset, with the clock started, and to `IDLE` with the
socket closed. A `session_initiate` whose send failed ends in `IDLE`, disarmed. -/
theorem run_states (env : Env σ) (b2sKeyLen : UInt8) (world : σ) (ticks n : Nat) :
    let m := run env n (Machine.start b2sKeyLen world ticks)
    (m.timer.hsTimerArmed = true ↔ m.wgState = .hsSent) ∧
      m.wgState = latestState m.trace ∧
      (∀ newer older, m.trace = newer ++ .setState .hsSent :: older →
        ∃ dest pkt older', older = .netUdpSend dest pkt false :: older' ∧ pkt.head? = some 1) ∧
      (∀ newer older, m.trace = newer ++ .setState .active :: older →
        ∃ keys older' newer' t,
          older = .transportInit :: .hsProcessResponse (some keys) :: older' ∧
          latestState older' = .hsSent ∧ newer = newer' ++ [.timerSessionStart t]) ∧
      (∀ newer older, m.trace = newer ++ .setState .idle :: older →
        ∃ newer', newer = newer' ++ [.netUdpClose]) ∧
      ∀ m' : Machine σ, (sendInitiation env (sessionPrepare env m')).2 = true →
        (sessionInitiate env m').wgState = .idle ∧
          (sessionInitiate env m').timer.hsTimerArmed = false := by
  intro m
  have hset : Settled false m := run_settled (start_settled _ _ _) env n (by simp)
  obtain ⟨s, hlog, hphase⟩ := hset.log
  refine ⟨?_, hset.state, ?_, ?_, ?_, fun m' => sessionInitiate_failed env⟩
  · obtain ⟨s, hs⟩ := hset
    exact hs.armed
  · intro newer older htrace
    rw [htrace] at hlog
    exact hlog.to_hsSent
  · intro newer older htrace
    rw [htrace] at hlog
    exact hlog.to_active hphase
  · intro newer older htrace
    rw [htrace] at hlog
    exact hlog.to_idle hphase

/-! ## Live sessions -/

/-- Every Type 4 packet handed to the adapter was built in `ACTIVE`, under the keys of the newest
accepted response. -/
def SentLive (log : List Event) : Prop :=
  ∀ newer older dest pkt carry, log = newer ++ .netUdpSend dest pkt carry :: older →
    pkt.head? = some 4 →
    ∃ sender counter t older' keys,
      older = .transportEncrypt sender .active keys.1 counter t :: older' ∧
      latestState older' = .active ∧ latestKeys older' = some keys

/-- **Transport data belongs to a live session**, in every run in which the test command is only
given in `ACTIVE`. -/
theorem run_sentLive (env : Env σ) (b2sKeyLen : UInt8) (world : σ) (ticks n : Nat)
    (hlive : AllTestsLive env n (Machine.start b2sKeyLen world ticks)) :
    SentLive (run env n (Machine.start b2sKeyLen world ticks)).trace := by
  have hset : Settled true (run env n (Machine.start b2sKeyLen world ticks)) :=
    run_settled (start_settled _ _ _) env n fun _ => hlive
  obtain ⟨s, hlog, -⟩ := hset.log
  intro newer older dest pkt carry htrace hpkt
  rw [htrace] at hlog
  obtain ⟨sender, state, key, counter, t, older', rfl⟩ := hlog.send hpkt
  obtain ⟨u, v, hu, -, -⟩ := hlog.split
  rw [← List.nil_append (.transportEncrypt sender state key counter t :: older')] at hu
  obtain ⟨hstate, hlive, hkey, -, -⟩ := Allowed.encrypt hu
  have hactive : state = .active := hlive.resolve_right fun hc => Bool.noConfusion hc.1
  obtain ⟨w, hw, -⟩ := Follows.cons_inv hu
  have hst : latestState older' = .active := hstate.symm.trans hactive
  obtain ⟨keys, hkeys⟩ := Option.ne_none_iff_exists'.mp (Allowed.active_keys hw hst)
  refine ⟨sender, counter, t, older', keys, ?_, hst, hkeys⟩
  rw [hactive, hkey, hkeys]
  rfl

/-! ## Lifetime -/

/-- A `timer_check` that finds the session expired drops it before anything else, and no transport
packet is accepted or built after it until another session is started. -/
def DropsExpired (log : List Event) : Prop :=
  ∀ newer older t, log = newer ++ .timerCheck t :: older → latestState older = .active →
    Expired (latestStart older) t →
    (∃ newer', newer = newer' ++ [.netUdpClose, .setState .idle]) ∧
      ∀ post between use t', newer = post ++ use :: between → use.Uses t' →
        ∃ started, .timerSessionStart started ∈ between

/-- **An expired session is dropped by the first `timer_check` that sees it**, in every run. -/
theorem run_dropsExpired (env : Env σ) (b2sKeyLen : UInt8) (world : σ) (ticks n : Nat) :
    DropsExpired (run env n (Machine.start b2sKeyLen world ticks)).trace := by
  have hset : Settled false (run env n (Machine.start b2sKeyLen world ticks)) :=
    run_settled (start_settled _ _ _) env n (by simp)
  obtain ⟨s, hlog, hphase⟩ := hset.log
  intro newer older t htrace hst hexp
  rw [htrace] at hlog
  exact hlog.expired hphase hst hexp

/-- No transport packet is accepted or built 180 seconds or more into the session. -/
def WithinLifetime (log : List Event) : Prop :=
  ∀ newer older use t, log = newer ++ use :: older → use.Uses t → latestState older = .active →
    t - latestStart older < 10800

end C64WireGuard
