import C64WireGuard.ElapsedTime
import C64WireGuard.Protocol
import C64WireGuard.TransportWindow

/-!
# The program conforms to the session protocol

`Settled m` says that the log of `m` is allowed and owes nothing, and that the cells are what the
log says: `wg_state`, the transport keys, `tp_send_counter`, the session clock, and the deadline,
which is armed exactly in `HS_SENT`. Every subroutine the main loop calls preserves it, so it holds
in every run (`run_settled`).
-/

namespace C64WireGuard

open Bytes

variable {σ : Type} {strict : Bool}

/-! ## Elapsed time -/

/-- Without a midnight in between, and below 16 bits, `timer_elapsed_cmp` compares what it should. -/
theorem timerElapsedCmp_spec {started now : Nat} (hle : started ≤ now) (hlt : now - started < 65536)
    (hday : started / jiffyPeriod = now / jiffyPeriod) (thrLo thrHi : UInt8) :
    timerElapsedCmp (jiffyAt now) (jiffyAt started) thrLo thrHi =
      decide (thrLo.toNat + 256 * thrHi.toNat ≤ now - started) := by
  have hperiod : now - started < jiffyPeriod := by
    unfold jiffyPeriod
    omega
  rw [timerElapsedCmp_eq, lowDifference_eq hle hperiod, if_pos hday.symm, Nat.mod_eq_of_lt hlt]

/-! ## Settled machines -/

/-- The cells the protocol speaks of, with the log. -/
structure Core where
  trace : List Event
  wgState : WgState
  hsTransportSend : Bytes 32
  hsTransportRecv : Bytes 32
  tpSendCounter : Bytes 8
  sessionStartJiffy : Bytes 3
  hsTimerArmed : Bool

/-- Them in a machine. -/
def Machine.core (m : Machine σ) : Core where
  trace := m.trace
  wgState := m.wgState
  hsTransportSend := m.hs.hsTransportSend
  hsTransportRecv := m.hs.hsTransportRecv
  tpSendCounter := m.tp.tpSendCounter
  sessionStartJiffy := m.timer.sessionStartJiffy
  hsTimerArmed := m.timer.hsTimerArmed

/-- The log is allowed and leads to `s`, and the cells are those of `s`. -/
structure Conforms (strict : Bool) (s : Session) (c : Core) : Prop where
  log : Allowed strict c.trace s
  state : c.wgState = s.state
  send : c.hsTransportSend = (keyCells s.keys).1
  recv : c.hsTransportRecv = (keyCells s.keys).2
  next : le c.tpSendCounter = s.next

/-- Nothing is owed, the clock cell is right in a session, and the deadline is armed in
`HS_SENT`. -/
structure Free (strict : Bool) (s : Session) (c : Core) : Prop extends Conforms strict s c where
  phase : s.phase = .free
  clock : c.wgState ≠ .idle → c.sessionStartJiffy = jiffyAt s.started
  armed : c.hsTimerArmed = true ↔ c.wgState = .hsSent

/-- The log of `m` is allowed, owes nothing, and tells its cells. -/
def Settled (strict : Bool) (m : Machine σ) : Prop := ∃ s, Free strict s m.core

theorem Settled.congr {m m' : Machine σ} (h : Settled strict m) (hc : m'.core = m.core) : Settled strict m' := by
  obtain ⟨s, hs⟩ := h
  exact ⟨s, hc ▸ hs⟩

/-- A call that changes no cell of the protocol. -/
theorem Conforms.log_event {s t : Session} {m : Machine σ} {e : Event} (h : Conforms strict s m.core)
    (he : s.Step strict e t) (hst : t.state = s.state) (hk : t.keys = s.keys) (hn : t.next = s.next) :
    Conforms strict t (m.log e).core where
  log := .cons h.log he
  state := hst ▸ h.state
  send := hk ▸ h.send
  recv := hk ▸ h.recv
  next := hn ▸ h.next

theorem Free.quiet {s : Session} {m : Machine σ} {e : Event} (h : Free strict s m.core) (he : e.Quiet) :
    Free strict s (m.log e).core where
  toConforms := h.log_event (.quiet h.phase he) rfl rfl rfl
  phase := h.phase
  clock := h.clock
  armed := h.armed

theorem Settled.quiet {m : Machine σ} {e : Event} (h : Settled strict m) (he : e.Quiet) :
    Settled strict (m.log e) := by
  obtain ⟨s, hs⟩ := h
  exact ⟨s, hs.quiet he⟩

theorem Settled.printString {m : Machine σ} (h : Settled strict m) (str : Str) :
    Settled strict (m.printString str) :=
  h.quiet (.printString str)

theorem Settled.chroutAll {m : Machine σ} (h : Settled strict m) (bs : List UInt8) :
    Settled strict (m.chroutAll bs) := by
  induction bs generalizing m with
  | nil => exact h
  | cons b bs ih =>
      have := ih (h.quiet (.chrout b))
      refine this.congr ?_
      simp only [Machine.core, Machine.chroutAll, Machine.log, List.map_cons, List.reverse_cons,
        List.append_assoc, List.singleton_append]

theorem Settled.elapse {m : Machine σ} (h : Settled strict m) (env : Env σ) : Settled strict (m.elapse env) :=
  h.congr rfl

theorem Settled.netUdpClose {m : Machine σ} (h : Settled strict m) (env : Env σ) :
    Settled strict (m.netUdpClose env) :=
  (h.quiet .netUdpClose).congr rfl

/-! ## Dropping a session -/

theorem Conforms.drop {s : Session} {m : Machine σ} (h : Conforms strict s m.core) (hs : s.phase.Drops)
    (env : Env σ) : Settled strict (sessionReset env m) := by
  refine ⟨{ s with phase := .free, state := .idle },
    { log := .cons (.cons h.log (.drop hs)) (.close rfl)
      state := rfl
      send := h.send
      recv := h.recv
      next := h.next
      phase := rfl
      clock := fun hc => absurd rfl hc
      armed := ?_ }⟩
  constructor <;> intro hc <;> cases hc

theorem sessionReset_settled {m : Machine σ} (h : Settled strict m) (env : Env σ) :
    Settled strict (sessionReset env m) := by
  obtain ⟨s, hs⟩ := h
  exact hs.toConforms.drop (hs.phase ▸ .free) env

/-! ## Initiating -/

theorem core_entropyByte (env : Env σ) (carry : Bool) (m : Machine σ) :
    (entropyByte env carry m).2.core = m.core := rfl

theorem core_entropyLoop (env : Env σ) (n : Nat) (filled : List UInt8) (carry : Bool)
    (m : Machine σ) : (entropyLoop env n filled carry m).2.2.core = m.core := by
  induction n generalizing filled carry m with
  | zero => rfl
  | succ n ih => rw [entropyLoop, ih, core_entropyByte]

theorem core_entropyFill (env : Env σ) (n : Nat) (carry : Bool) (m : Machine σ) :
    (entropyFill env n carry m).2.2.core = m.core :=
  core_entropyLoop env n [] carry m

theorem configLoad_settled {m : Machine σ} (h : Settled strict m) (env : Env σ) :
    Settled strict (configLoad env m).2 := by
  rw [configLoad, loadEndpoint]
  split
  · exact h.congr rfl
  · exact (h.netUdpClose env).congr rfl

theorem sessionPrepare_settled {m : Machine σ} (h : Settled strict m) (env : Env σ) :
    Settled strict (sessionPrepare env m) := by
  rw [sessionPrepare]
  have hload := configLoad_settled h env
  generalize configLoad env m = c at *
  have hpriv := hload.congr (core_entropyFill env 32 c.1 c.2)
  generalize entropyFill env 32 c.1 c.2 = priv at *
  have hidx := core_entropyFill env 4 priv.2.1
    { priv.2.2 with hs := { priv.2.2.hs with hsEphemPriv := priv.1 } }
  generalize entropyFill env 4 priv.2.1
    { priv.2.2 with hs := { priv.2.2.hs with hsEphemPriv := priv.1 } } = idx at *
  exact hpriv.congr hidx

/-- What building an initiation leaves alone: the transport keys, and the type once written. -/
def HsMem.frame (m : HsMem) : Bytes 32 × Bytes 32 × UInt8 :=
  (m.hsTransportSend, m.hsTransportRecv, byte m.hsPacket 0)

theorem byte_zero_copyIn {n k : Nat} (b : Bytes n) {off : Nat} (hoff : 0 < off) (src : Bytes k) :
    byte (copyIn b off src) 0 = byte b 0 := by
  rw [byte_copyIn, if_neg (by omega)]

theorem hsEncrypt_frame (p : Primitives) {off n : Nat} (hoff : 0 < off) (data : Bytes n)
    (m : HsMem) : (hsEncrypt p off data m).frame = m.frame := by
  rw [hsEncrypt]
  dsimp only
  split
  · simp only [HsMem.frame, hsMixHash, byte_zero_copyIn _ (Nat.add_pos_left hoff n),
      byte_zero_copyIn _ hoff]
  · simp only [HsMem.frame, hsMixHash, byte_zero_copyIn _ (Nat.add_pos_left hoff n),
      byte_zero_copyIn _ hoff]

theorem hsWriteMessage_frame (p : Primitives) (m : HsMem) :
    (hsWriteMessage p m).frame = m.frame := by
  have hmix (priv pub : Bytes 32) (m : HsMem) : (hsMixDh p kdf2 priv pub m).frame = m.frame := rfl
  rw [hsWriteMessage, hsEncrypt_frame p (by decide), hmix, hsEncrypt_frame p (by decide), hmix]
  rfl

theorem hsMacs_frame (m : HsMem) : (hsMacs m).frame = m.frame := by
  simp only [hsMacs]
  split
  · simp only [HsMem.frame, hsSetMac2, hsComputeMac1, byte_zero_copyIn _ (Nat.succ_pos _)]
  · simp only [HsMem.frame, hsComputeMac1, byte_zero_copyIn _ (Nat.succ_pos _)]

/-- An initiation is of Type 1 and does not touch the transport keys. -/
theorem hsCreateInitiation_frame (p : Primitives) (m : HsMem) :
    (hsCreateInitiation p m).frame = (m.hsTransportSend, m.hsTransportRecv, 1) := by
  rw [hsCreateInitiation, hsMacs_frame, hsWriteMessage_frame]
  simp only [HsMem.frame, hsEphemeral, hsInit, byte_zero_copyIn _ (Nat.succ_pos _), Prod.mk.injEq,
    true_and]
  rw [byte_copyIn, if_pos (by decide)]
  rfl

theorem head?_toList {n : Nat} (b : Bytes n) (hn : 0 < n) : b.toList.head? = some (byte b 0) := by
  rw [List.head?_eq_getElem?, byte_of_lt b hn]
  simp [hn]

/-- Entering `HS_SENT` or `ACTIVE`: the write of `wg_state`, then the clock. -/
theorem Conforms.enter {s : Session} {m : Machine σ} {st : WgState} (h : Conforms strict s m.core)
    (hstep : s.Step strict (.setState st) { s with phase := .entered, state := st }) (env : Env σ) :
    ∃ t, Conforms strict t (timerSessionStart env (m.setState st)).core ∧ t.phase = .free ∧
      (timerSessionStart env (m.setState st)).timer.sessionStartJiffy = jiffyAt t.started :=
  ⟨{ s with phase := .free, state := st, started := (m.elapse env).ticks },
    { log := .cons (.cons h.log hstep) (.clock rfl)
      state := rfl
      send := h.send
      recv := h.recv
      next := h.next }, rfl, rfl⟩

/-- The initiation is handed to the adapter as a Type 1 packet. -/
theorem Free.initiated {s : Session} {m : Machine σ} (h : Free strict s m.core) (env : Env σ) :
    Conforms strict { s with phase := .initiated (sendInitiation env m).2 }
      (sendInitiation env m).1.core := by
  have hframe := hsCreateInitiation_frame env.prims m.hs
  simp only [HsMem.frame, Prod.mk.injEq] at hframe
  obtain ⟨hsend, hrecv, htype⟩ := hframe
  have hhead : (hsCreateInitiation env.prims m.hs).hsPacket.toList.head? = some 1 := by
    rw [head?_toList _ (by decide), htype]
  exact
    { log := .cons h.log (.initiate h.phase hhead)
      state := h.state
      send := hsend.trans h.send
      recv := hrecv.trans h.recv
      next := h.next }

theorem sessionInitiate_settled {m : Machine σ} (h : Settled strict m) (env : Env σ) :
    Settled strict (sessionInitiate env m) := by
  obtain ⟨s, hs⟩ := sessionPrepare_settled h env
  have hconf := hs.initiated env
  rw [sessionInitiate]
  generalize sendInitiation env (sessionPrepare env m) = r at *
  cases hc : r.2 with
  | true =>
      rw [hc] at hconf
      exact (hconf.drop .initiated env).printString _
  | false =>
      rw [hc] at hconf
      obtain ⟨t, ht, hphase, hclock⟩ := hconf.enter (.sent rfl) env
      exact ⟨t,
        { log := ht.log
          state := ht.state
          send := ht.send
          recv := ht.recv
          next := ht.next
          phase := hphase
          clock := fun _ => hclock
          armed := ⟨fun _ => rfl, fun _ => rfl⟩ }⟩

/-! ## Receiving -/

theorem cookieHandleType3_frame (p : Primitives) (pub : Bytes 32) (udp : UdpRecv) (m : HsMem) :
    (cookieHandleType3 p pub udp m).2.hsTransportSend = m.hsTransportSend ∧
      (cookieHandleType3 p pub udp m).2.hsTransportRecv = m.hsTransportRecv := by
  rw [cookieHandleType3]
  split
  · simp only [cookieOpen]
    split <;> exact ⟨rfl, rfl⟩
  · exact ⟨rfl, rfl⟩

theorem handleType3_settled {m : Machine σ} (h : Settled strict m) (env : Env σ) :
    Settled strict (handleType3 env m) := by
  obtain ⟨hsend, hrecv⟩ := cookieHandleType3_frame env.prims m.cfg.cfgPeerPub m.udp m.hs
  rw [handleType3]
  split
  · rw [callCookieHandleType3]
    generalize cookieHandleType3 env.prims m.cfg.cfgPeerPub m.udp m.hs = r at *
    have hr : Settled strict { m with hs := r.2 } := by
      refine h.congr ?_
      simp only [Machine.core, hsend, hrecv]
    have hlog := hr.quiet (.cookieHandleType3 m.cfg.cfgPeerPub m.udp r.1)
    dsimp only
    split
    · exact sessionInitiate_settled (hlog.printString _) env
    · exact hlog
  · exact h

/-- A rejected response leaves the transport keys alone. -/
theorem hsProcessResponse_reject (p : Primitives) {m : HsMem}
    (h : (hsProcessResponse p m).1 = false) :
    (hsProcessResponse p m).2.hsTransportSend = m.hsTransportSend ∧
      (hsProcessResponse p m).2.hsTransportRecv = m.hsTransportRecv := by
  rw [hsProcessResponse] at *
  split at h
  · cases h
  · rename_i hbad
    rw [if_neg hbad]
    exact ⟨rfl, rfl⟩

theorem handleType2_settled {m : Machine σ} (h : Settled strict m) (env : Env σ) :
    Settled strict (handleType2 env m) := by
  obtain ⟨s, hs⟩ := h
  rw [handleType2]
  split
  · rename_i hstate
    have hsent : s.state = .hsSent := hs.state.symm.trans hstate
    have hrej := hsProcessResponse_reject env.prims
      (m := { m.hs with hsRespPacket := slice m.udp.udpRecvBuf 0 92 })
    rw [callHsProcessResponse]
    generalize hsProcessResponse env.prims
      { m.hs with hsRespPacket := slice m.udp.udpRecvBuf 0 92 } = r at *
    cases hr : r.1 with
    | true =>
        have hconf : Conforms strict
            { s with
              phase := .counting
              keys := some (r.2.hsTransportSend, r.2.hsTransportRecv)
              next := 0 }
            ((({ m with hs := r.2, tp := transportInit r.2.hsRespPacket m.tp } : Machine σ).log
              (.hsProcessResponse (some (r.2.hsTransportSend, r.2.hsTransportRecv)))).log
                .transportInit).core :=
          { log := .cons (.cons hs.log (.install hs.phase hsent)) (.init rfl)
            state := hs.state
            send := rfl
            recv := rfl
            next := le_zero }
        obtain ⟨t, ht, hphase, hclock⟩ := hconf.enter (.activate rfl) env
        refine Settled.printString ⟨t,
          { log := ht.log
            state := ht.state
            send := ht.send
            recv := ht.recv
            next := ht.next
            phase := hphase
            clock := fun _ => hclock
            armed := ?_ }⟩ _
        constructor <;> intro hc <;> cases hc
    | false =>
        obtain ⟨hsend, hrecv⟩ := hrej hr
        have hconf : Conforms strict { s with phase := .rejected }
            (({ m with hs := r.2 } : Machine σ).log (.hsProcessResponse none)).core :=
          { log := .cons hs.log (.reject hs.phase hsent)
            state := hs.state
            send := hsend.trans hs.send
            recv := hrecv.trans hs.recv
            next := hs.next }
        exact (hconf.drop .rejected env).printString _
  · exact ⟨s, hs⟩

theorem routePayload_settled {m : Machine σ} (h : Settled strict m) (env : Env σ) :
    Settled strict (routePayload env m) := by
  have hdisplay : ∀ {m : Machine σ}, Settled strict m → Settled strict (displayPayload m) := fun h =>
    (h.printString _).chroutAll _
  rw [routePayload]
  split
  · rw [handleIcmp]
    split
    · exact h.printString _
    · exact hdisplay h
  · split
    · have hr : Settled strict { m with ip := (udpTunnelParse env.build m.tp m.ip).2 } := h.congr rfl
      simp only [handleUdp]
      split
      · exact (hr.printString _).chroutAll _
      · exact hdisplay hr
    · exact hdisplay h

theorem endpointUpdate_settled {m : Machine σ} (h : Settled strict m) (env : Env σ) :
    Settled strict (endpointUpdate env m) := by
  rw [endpointUpdate]
  split
  · exact h
  · exact Settled.netUdpClose (m := { m with wgPeer := m.udp.udpRecvSrc }) (h.congr rfl) env

theorem handleType4_settled {m : Machine σ} (h : Settled strict m) (env : Env σ) :
    Settled strict (handleType4 env m) := by
  rw [handleType4]
  split
  · rename_i hstate
    have hcall : Settled strict (callTransportDecrypt env m).2 := by
      obtain ⟨s, hs⟩ := h
      have hactive : s.state = .active := hs.state.symm.trans hstate
      have hcounter := (transportDecrypt_send env.prims m.hs.hsTransportRecv m.udp m.hs.toCryptoMem
        { m.tp with
          tpPacket := copy16 m.tp.tpPacket 0 m.udp.udpRecvBuf 0 m.udp.udpRecvLen
          tpPacketLen := m.udp.udpRecvLen }).1
      rw [callTransportDecrypt]
      generalize transportDecrypt env.prims m.hs.hsTransportRecv m.udp m.hs.toCryptoMem
        { m.tp with
          tpPacket := copy16 m.tp.tpPacket 0 m.udp.udpRecvBuf 0 m.udp.udpRecvLen
          tpPacketLen := m.udp.udpRecvLen } = r at *
      have hstep : s.Step strict (.transportDecrypt m.hs.hsTransportRecv r.1 m.ticks) s := by
        rw [show m.hs.hsTransportRecv = (keyCells s.keys).2 from hs.recv]
        exact .decrypt hs.phase hactive
      exact ⟨s,
        { log := .cons hs.log hstep
          state := hs.state
          send := hs.send
          recv := hs.recv
          next := (congrArg le hcounter).trans hs.next
          phase := hs.phase
          clock := hs.clock
          armed := hs.armed }⟩
    dsimp only
    split
    · exact routePayload_settled (endpointUpdate_settled hcall env) env
    · exact hcall.printString _
  · exact h

theorem sessionHandlePacket_settled {m : Machine σ} (h : Settled strict m) (env : Env σ) :
    Settled strict (sessionHandlePacket env m) := by
  have hm : Settled strict { m with udp := { m.udp with udpRecvReady := false } } := h.congr rfl
  simp only [sessionHandlePacket]
  split
  · exact handleType2_settled hm env
  · split
    · exact handleType3_settled hm env
    · split
      · exact handleType4_settled hm env
      · exact hm

/-! ## Sending -/

theorem payload_lt (env : Env σ) {n : Nat} (h : ¬ env.build.wgMtu < n) : n + 32 ≤ udpRecvBufSize := by
  have := env.build.wgMtu_le
  omega

/-- A packet that fits is sent as Type 4. -/
theorem head?_tpPacketBytes {payload : Bytes udpRecvBufSize} {t : TpMem}
    (hlen : t.tpPayloadLen + 32 ≤ udpRecvBufSize) (ciphertext : Bytes t.tpPayloadLen)
    (tag : Bytes 16) :
    (tpPacketBytes (encryptedMem payload t ciphertext tag)).head? = some 4 := by
  have hpos : 0 < (encryptedMem payload t ciphertext tag).tpPacketLen := by
    rw [udpRecvBufSize] at hlen
    simp only [encryptedMem]
    omega
  rw [tpPacketBytes, head?_toList _ hpos, byte_slice, if_pos hpos]
  simp only [encryptedMem, encryptStage, copy16_eq, Nat.add_zero]
  rw [byte_zero_copyIn _ (by omega), byte_zero_copyIn _ (by decide), byte_zero_copyIn _ (by decide),
    byte_zero_copyIn _ (by decide), byte_zero_copyIn _ (by decide), byte_copyIn,
    if_pos (by decide)]
  rfl

/-- `transport_send` in a live session, or by the test command in any. -/
theorem transportSend_settled {m : Machine σ} (h : Settled strict m) (env : Env σ) {sender : Sender}
    (hsender : m.wgState = .active ∨ strict = false ∧ sender = .sendTest) :
    Settled strict (transportSend env sender m).1 := by
  rw [transportSend]
  split
  · exact h
  · rename_i hmtu
    obtain ⟨s, hs⟩ := h
    rw [callTransportEncrypt]
    obtain ⟨c', t', rekey, heq, hcounter, -⟩ | ⟨ct, tag, c', rekey, heq, hlim, -⟩ :=
      transportEncrypt_cases env.prims m.hs.hsTransportSend (payloadBytes m) m.hs.toCryptoMem m.tp
    · rw [heq]
      exact ⟨s, { hs with next := (congrArg le hcounter).trans hs.next }⟩
    · rw [heq]
      have hlt : le m.tp.tpSendCounter < 2 ^ 60 := (top_byte_lt_iff _).mp hlim
      have hnext : le m.tp.tpSendCounter = s.next := hs.next
      have hstate : m.wgState = s.state := hs.state
      have hkey : m.hs.hsTransportSend = (keyCells s.keys).1 := hs.send
      have hstep : s.Step strict
          (.transportEncrypt sender m.wgState m.hs.hsTransportSend m.tp.tpSendCounter m.ticks)
          { s with phase := .built, next := s.next + 1 } := by
        rw [hstate, hkey]
        exact .encrypt hs.phase (hstate ▸ hsender) hnext (hnext ▸ hlt)
      have hinc : le (counterInc64 m.tp.tpSendCounter) = s.next + 1 := by
        rw [counterInc64, le_inc, hnext]
        rw [hnext] at hlt
        omega
      exact ⟨{ s with phase := .free, next := s.next + 1 },
        { log := .cons (.cons hs.log hstep)
            (.send rfl (head?_tpPacketBytes (payload_lt env hmtu) ct tag))
          state := hs.state
          send := hs.send
          recv := hs.recv
          next := hinc
          phase := rfl
          clock := hs.clock
          armed := hs.armed }⟩

/-! ## Timers -/

theorem timerMarkSend_settled {m : Machine σ} (h : Settled strict m) (env : Env σ) :
    Settled strict (timerMarkSend env m) :=
  h.congr rfl

theorem timerCheckHandshake_settled {m : Machine σ} (h : Settled strict m) (env : Env σ) :
    Settled strict (timerCheckHandshake env m) := by
  simp only [timerCheckHandshake]
  split
  · split
    · exact (sessionReset_settled (h.elapse env) env).printString _
    · exact h.elapse env
  · exact h

theorem checkRekey_settled {m : Machine σ} (h : Settled strict m) (env : Env σ) :
    Settled strict (checkRekey env m) := by
  simp only [checkRekey]
  split
  · exact h
  · split
    · exact Settled.printString ((h.elapse env).congr rfl) _
    · exact h.elapse env

theorem checkKeepalive_settled {m : Machine σ} (h : Settled strict m) (hst : m.wgState = .active)
    (env : Env σ) : Settled strict (checkKeepalive env m) := by
  simp only [checkKeepalive]
  split
  · refine (timerMarkSend_settled (transportSend_settled ?_ env (.inl ?_)) env).printString _
    · exact (h.elapse env).congr rfl
    · exact hst
  · exact h.elapse env

theorem timerCheckActive_settled {m : Machine σ} (h : Settled strict m) (hst : m.wgState = .active)
    (env : Env σ) : Settled strict (timerCheckActive env m) := by
  rw [timerCheckActive]
  split
  · exact (sessionReset_settled h env).printString _
  · refine checkKeepalive_settled (checkRekey_settled h env) ?_ env
    rw [checkRekey_wgState, hst]

/-- `timer_check` finds a session expired when it is. -/
theorem timerElapsedCmp_expired {started ticks : Nat} (h : Expired started ticks) :
    timerElapsedCmp (jiffyAt ticks) (jiffyAt started) 0x30 0x2a = true := by
  obtain ⟨hge, hlt, hday⟩ := h
  rw [timerElapsedCmp_spec (by omega) hlt hday, decide_eq_true_iff]
  exact hge

theorem timerCheck_settled {m : Machine σ} (h : Settled strict m) (env : Env σ) :
    Settled strict (timerCheck env m) := by
  obtain ⟨s, hs⟩ := h.elapse env
  rw [timerCheck]
  generalize m.elapse env = m at *
  by_cases hexp : s.state = .active ∧ Expired s.started m.ticks
  · have hactive : m.wgState = .active := hs.state.trans hexp.1
    have hclock : m.timer.sessionStartJiffy = jiffyAt s.started :=
      hs.clock (show m.wgState ≠ .idle by rw [hactive]; decide)
    have hcmp : timerElapsedCmp (m.log (.timerCheck m.ticks)).jiffy
        (m.log (.timerCheck m.ticks)).timer.sessionStartJiffy 0x30 0x2a = true := by
      rw [show (m.log (.timerCheck m.ticks)).timer.sessionStartJiffy = _ from hclock]
      exact timerElapsedCmp_expired hexp.2
    have hdrop := (hs.toConforms.log_event (.expire hs.phase hexp.1 hexp.2) rfl rfl rfl).drop
      .expired env
    simp only [show (m.log (.timerCheck m.ticks)).wgState = .active from hactive, timerCheckActive,
      if_pos hcmp]
    exact hdrop.printString _
  · have hlog : Settled strict (m.log (.timerCheck m.ticks)) :=
      ⟨s, { toConforms := hs.toConforms.log_event (.check hs.phase hexp) rfl rfl rfl
            phase := hs.phase
            clock := hs.clock
            armed := hs.armed }⟩
    split
    · exact hlog
    · exact timerCheckHandshake_settled hlog env
    · rename_i hactive
      exact timerCheckActive_settled hlog hactive env

/-! ## Commands and the loop -/

theorem doNetInit_settled {m : Machine σ} (h : Settled strict m) (env : Env σ) :
    Settled strict (doNetInit env m) := by
  simp only [doNetInit]
  split
  · exact Settled.printString ((h.printString _).congr rfl) _
  · split
    · exact Settled.printString (((h.printString .netInitMsg).printString .netDhcpMsg).congr rfl) _
    · split
      · exact Settled.printString ((((h.printString .netInitMsg).printString
          .netDhcpMsg).printString .netOkMsg).congr rfl) _
      · exact Settled.congr (((((h.printString .netInitMsg).printString .netDhcpMsg).printString
          .netOkMsg).printString .netListenMsg)) rfl

theorem doHandshake_settled {m : Machine σ} (h : Settled strict m) (env : Env σ) :
    Settled strict (doHandshake env m) := by
  rw [doHandshake]
  refine sessionInitiate_settled ?_ env
  exact (h.printString .hsStartMsg).congr rfl

theorem doSendTest_settled {m : Machine σ} (h : Settled strict m) (env : Env σ)
    (hstrict : strict = true → m.wgState = .active) : Settled strict (doSendTest env m) := by
  rw [doSendTest]
  refine (transportSend_settled ?_ env ?_).printString _
  · exact h.congr rfl
  · cases strict with
    | true => exact .inl (hstrict rfl)
    | false => exact .inr ⟨rfl, rfl⟩

theorem doPing_settled {m : Machine σ} (h : Settled strict m) (env : Env σ) : Settled strict (doPing env m) := by
  rw [doPing]
  split
  · rename_i hst
    refine (timerMarkSend_settled (transportSend_settled ?_ env (.inl ?_)) env).printString _
    · exact h.congr rfl
    · exact hst
  · exact h.printString _

theorem readInputLine_settled {m : Machine σ} (h : Settled strict m) (env : Env σ) :
    Settled strict (readInputLine env m) :=
  (Settled.chroutAll (m := { m with
    world := (env.host.getinLine m.world).1
    ip := (readInputLoop env.build (env.host.getinLine m.world).2
      { m.ip with msgInputLen := 0 }).1 }) (h.congr rfl) _).elapse env

theorem readInputLine_wgState (env : Env σ) (m : Machine σ) :
    (readInputLine env m).wgState = m.wgState := rfl

theorem doMessageInput_settled {m : Machine σ} (h : Settled strict m) (env : Env σ) :
    Settled strict (doMessageInput env m) := by
  rw [doMessageInput]
  split
  · rename_i hst
    have hline := readInputLine_settled (h.printString .msgPrompt) env
    have hwg : (readInputLine env (m.printString .msgPrompt)).wgState = .active := hst
    generalize readInputLine env (m.printString .msgPrompt) = m' at *
    have hsend : Settled strict (transportSend env .message (stageIpPacket { m' with
        ip := udpTunnelBuild env.build (.ipPacketBuf ipUdpHdrLen) m'.ip.msgInputLen m'.cfg
          m'.ip })).1 := by
      refine transportSend_settled ?_ env (.inl hwg)
      exact hline.congr rfl
    dsimp only
    split
    · exact (hsend.printString _).chroutAll _
    · exact (timerMarkSend_settled hsend env).printString _
  · exact h.printString _

theorem doLoadConfig_settled {m : Machine σ} (h : Settled strict m) (env : Env σ) :
    Settled strict (doLoadConfig env m) := by
  rw [doLoadConfig]
  exact Settled.printString ((h.printString .cfgLoadingMsg).congr rfl) _

theorem runCommand_settled {m : Machine σ} (h : Settled strict m) (env : Env σ) (c : Command)
    (hstrict : strict = true → c = .sendTest → m.wgState = .active) :
    Settled strict (runCommand env m c) := by
  cases c with
  | quit => exact h.netUdpClose env
  | netInit => exact doNetInit_settled h env
  | handshake => exact doHandshake_settled h env
  | sendTest => exact doSendTest_settled h env fun hs => hstrict hs rfl
  | ping => exact doPing_settled h env
  | message => exact doMessageInput_settled h env
  | loadConfig => exact doLoadConfig_settled h env

theorem pollAndHandle_settled {m : Machine σ} (h : Settled strict m) (env : Env σ) :
    Settled strict (pollAndHandle env m) := by
  simp only [pollAndHandle]
  split
  · split
    · refine sessionHandlePacket_settled ?_ env
      exact (h.elapse env).congr rfl
    · exact (h.elapse env).congr rfl
  · exact h.elapse env

/-- The command of an iteration, and the machine it is run on. -/
def commandPoint (env : Env σ) (m : Machine σ) : Option Command × Machine σ :=
  getCommand env (timerCheck env (pollAndHandle env m))

/-- The test command is only given in a live session. -/
def TestsLive (env : Env σ) (m : Machine σ) : Prop :=
  (commandPoint env m).1 = some .sendTest → (commandPoint env m).2.wgState = .active

/-- One iteration of the main loop keeps a machine settled. -/
theorem mainLoop_settled {m : Machine σ} (h : Settled strict m) (env : Env σ)
    (hstrict : strict = true → TestsLive env m) : Settled strict (mainLoop env m).1 := by
  have hcheck := timerCheck_settled (pollAndHandle_settled h env) env
  have hget : Settled strict (commandPoint env m).2 := hcheck.congr rfl
  simp only [mainLoop]
  split
  · exact hget
  · rename_i c hc
    exact runCommand_settled hget env _ fun hs heq => hstrict hs (hc.trans (congrArg some heq))

theorem start_settled (b2sKeyLen : UInt8) (world : σ) (ticks : Nat) :
    Settled strict (Machine.start b2sKeyLen world ticks) :=
  ⟨.start,
    { log := .nil
      state := rfl
      send := rfl
      recv := rfl
      next := le_zero
      phase := rfl
      clock := fun hc => absurd rfl hc
      armed := by constructor <;> intro hc <;> cases hc }⟩

/-- The same in each of the first `n` iterations. -/
def AllTestsLive (env : Env σ) : Nat → Machine σ → Prop
  | 0, _ => True
  | n + 1, m =>
      TestsLive env m ∧ ((mainLoop env m).2 = true → AllTestsLive env n (mainLoop env m).1)

/-- **Every run conforms.** After any number of iterations the log is allowed, owes nothing and
tells the cells. The strict protocol is kept when the test command is. -/
theorem run_settled {m : Machine σ} (h : Settled strict m) (env : Env σ) (n : Nat)
    (hstrict : strict = true → AllTestsLive env n m) : Settled strict (run env n m) := by
  induction n generalizing m with
  | zero => exact h
  | succ n ih =>
      have hloop := mainLoop_settled h env fun hs => (hstrict hs).1
      rw [run]
      split
      · rename_i hgo
        exact ih hloop fun hs => (hstrict hs).2 hgo
      · exact hloop

end C64WireGuard
