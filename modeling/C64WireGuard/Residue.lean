import C64WireGuard.CookieReply
import C64WireGuard.Outstanding
import C64WireGuard.PacketFrames
import C64WireGuard.SealedTransport

/-!
# What lies behind a datagram

`udp_recv_buf` keeps what earlier datagrams left behind the received bytes, and of the routines that
read a packet only `transport_decrypt` looks at `udp_recv_len`.

`sessionHandlePacket_residue` says when this matters: two machines that differ in those bytes alone
handle a datagram alike exactly if `SettledByReceived` holds, which it does in `IDLE` and `ACTIVE`,
for Type 4 packets of every length, for whole Type 2 and Type 3 packets, and for short ones that the
received part already spoils.
-/

namespace C64WireGuard

open Bytes

variable {σ : Type}

/-! ## Two machines -/

/-- The machine with these contents in `udp_recv_buf`. -/
def Machine.withBuf (m : Machine σ) (buf : Bytes udpRecvBufSize) : Machine σ :=
  { m with udp := { m.udp with udpRecvBuf := buf } }

/-- Contents with the same received bytes. -/
def SameReceived (udp : UdpRecv) (buf : Bytes udpRecvBufSize) : Prop :=
  ∀ i < udp.udpRecvLen, byte buf i = byte udp.udpRecvBuf i

theorem SameReceived.slice_eq {udp : UdpRecv} {buf : Bytes udpRecvBufSize}
    (h : SameReceived udp buf) {off n : Nat} (hfit : off + n ≤ udp.udpRecvLen) :
    slice buf off n = slice udp.udpRecvBuf off n := by
  apply ext_byte
  intro i hi
  rw [byte_slice, byte_slice, if_pos hi, if_pos hi]
  exact h _ (by omega)

/-- A call of `net_udp_send`. -/
def Event.datagram : Event → Option (Endpoint × List UInt8 × Bool)
  | .netUdpSend dest pkt carry => some (dest, pkt, carry)
  | _ => none

/-- The datagrams of a log, newest first. -/
def datagrams (log : List Event) : List (Endpoint × List UInt8 × Bool) :=
  log.filterMap Event.datagram

/-- What handling a packet comes to: the cells of the session, every key and input of a handshake,
the chaining key and transcript, and the datagrams sent. -/
def Machine.outcome (m : Machine σ) :=
  (m.liveCells, m.hs.inputs, m.hs.symmetric, datagrams m.trace)

/-- The machines differ at most in the receive cells other than the source, and in log entries that
are not datagrams. -/
def Twins (m m' : Machine σ) : Prop :=
  ∃ udp log, m' = { m with udp := udp, trace := log } ∧ udp.udpRecvSrc = m.udp.udpRecvSrc ∧
    datagrams log = datagrams m.trace

namespace Twins

variable {m m' : Machine σ}

theorem outcome (h : Twins m m') : m'.outcome = m.outcome := by
  obtain ⟨udp, log, rfl, -, hlog⟩ := h
  rw [Machine.outcome, hlog]
  rfl

theorem hs_eq (h : Twins m m') : m'.hs = m.hs := by
  obtain ⟨udp, log, rfl, -⟩ := h
  rfl

theorem timer_eq (h : Twins m m') : m'.timer = m.timer := by
  obtain ⟨udp, log, rfl, -⟩ := h
  rfl

theorem tp_eq (h : Twins m m') : m'.tp = m.tp := by
  obtain ⟨udp, log, rfl, -⟩ := h
  rfl

theorem log₂ (h : Twins m m') {e e' : Event} (he : e'.datagram = e.datagram) :
    Twins (m.log e) (m'.log e') := by
  obtain ⟨udp, log, rfl, hsrc, hlog⟩ := h
  refine ⟨udp, e' :: log, rfl, hsrc, ?_⟩
  simp only [datagrams, Machine.log, List.filterMap_cons, he] at hlog ⊢
  rw [hlog]

theorem log (h : Twins m m') (e : Event) : Twins (m.log e) (m'.log e) := h.log₂ rfl

theorem chroutAll (h : Twins m m') (bs : List UInt8) :
    Twins (m.chroutAll bs) (m'.chroutAll bs) := by
  obtain ⟨udp, log, rfl, hsrc, hlog⟩ := h
  refine ⟨udp, (bs.map Event.chrout).reverse ++ log, rfl, hsrc, ?_⟩
  simp only [datagrams, Machine.chroutAll, List.filterMap_append] at hlog ⊢
  rw [hlog]

/-- A change of other cells, the same in both machines. -/
theorem edit (h : Twins m m') (f : Machine σ → Machine σ)
    (hf : ∀ (m : Machine σ) udp log, f { m with udp := udp, trace := log } =
      { f m with udp := udp, trace := log }) :
    Twins (f m) (f m') := by
  have hudp : (f m).udp = m.udp := congrArg (·.udp) (hf m m.udp m.trace)
  have htrace : (f m).trace = m.trace := congrArg (·.trace) (hf m m.udp m.trace)
  obtain ⟨udp, log, rfl, hsrc, hlog⟩ := h
  exact ⟨udp, log, hf m udp log, by rw [hudp, hsrc], by rw [htrace, hlog]⟩

theorem elapse (h : Twins m m') (env : Env σ) : Twins (m.elapse env) (m'.elapse env) :=
  h.edit (·.elapse env) fun _ _ _ => rfl

theorem setState (h : Twins m m') (s : WgState) : Twins (m.setState s) (m'.setState s) :=
  (h.edit (fun m => { m with wgState := s }) fun _ _ _ => rfl).log (.setState s)

theorem netUdpClose (h : Twins m m') (env : Env σ) :
    Twins (m.netUdpClose env) (m'.netUdpClose env) :=
  (h.edit (fun m => { m with world := env.net.netUdpClose m.world }) fun _ _ _ => rfl).log
    .netUdpClose

theorem netUdpSend (h : Twins m m') (env : Env σ) (pkt : List UInt8) :
    (m'.netUdpSend env pkt).2 = (m.netUdpSend env pkt).2 ∧
      Twins (m.netUdpSend env pkt).1 (m'.netUdpSend env pkt).1 := by
  have hsent := h.edit
    (fun m => { m with world := (env.net.netUdpSend m.netUdpDest pkt m.world).1 })
    (fun _ _ _ => rfl)
  obtain ⟨udp, log, rfl, -⟩ := h
  exact ⟨rfl, hsent.log _⟩

theorem sessionReset (h : Twins m m') (env : Env σ) :
    Twins (sessionReset env m) (sessionReset env m') :=
  ((h.setState .idle).edit (fun m => { m with timer := { m.timer with hsTimerArmed := false } })
    fun _ _ _ => rfl).netUdpClose env

theorem timerSessionStart (h : Twins m m') (env : Env σ) :
    Twins (timerSessionStart env m) (timerSessionStart env m') := by
  have hlog : Twins ((m.elapse env).log (.timerSessionStart (m.elapse env).ticks))
      ((m'.elapse env).log (.timerSessionStart (m'.elapse env).ticks)) :=
    (h.elapse env).log₂ rfl
  exact hlog.edit (fun m => { m with
    timer := { m.timer with
      sessionStartJiffy := m.jiffy
      lastSendJiffy := m.jiffy
      hsTimerArmed := false } }) fun _ _ _ => rfl

/-! ### `session_initiate` -/

theorem loadEndpoint (h : Twins m m') (env : Env σ) :
    Twins (loadEndpoint env m) (loadEndpoint env m') := by
  have hmoved := h.edit (fun m => { m with wgPeer := m.cfg.cfgPeerEndpoint }) fun _ _ _ => rfl
  have hiff : m'.cfg.cfgPeerEndpoint = m'.wgPeer ↔ m.cfg.cfgPeerEndpoint = m.wgPeer := by
    obtain ⟨udp, log, rfl, -⟩ := h
    exact Iff.rfl
  rw [C64WireGuard.loadEndpoint, C64WireGuard.loadEndpoint]
  by_cases hstays : m.cfg.cfgPeerEndpoint = m.wgPeer
  · rw [if_pos hstays, if_pos (hiff.mpr hstays)]
    exact hmoved
  · rw [if_neg hstays, if_neg (mt hiff.mp hstays)]
    exact hmoved.netUdpClose env

theorem configLoad (h : Twins m m') (env : Env σ) :
    (configLoad env m').1 = (configLoad env m).1 ∧
      Twins (configLoad env m).2 (configLoad env m').2 := by
  have hkeys := h.edit loadKeys fun _ _ _ => rfl
  have hpsk := (hkeys.loadEndpoint env).edit loadPsk fun _ _ _ => rfl
  have hclock := hpsk.elapse env
  refine ⟨?_, hclock.edit syncTimeline fun _ _ _ => rfl⟩
  rw [C64WireGuard.configLoad, C64WireGuard.configLoad]
  obtain ⟨udp, log, heq, -⟩ := hclock
  dsimp only
  rw [heq]

theorem entropyLoop (h : Twins m m') (env : Env σ) (n : Nat) (filled : List UInt8) (carry : Bool) :
    (entropyLoop env n filled carry m').1 = (entropyLoop env n filled carry m).1 ∧
      (entropyLoop env n filled carry m').2.1 = (entropyLoop env n filled carry m).2.1 ∧
      Twins (entropyLoop env n filled carry m).2.2 (entropyLoop env n filled carry m').2.2 := by
  induction n generalizing m m' filled carry with
  | zero => exact ⟨rfl, rfl, h⟩
  | succ n ih =>
      have hbyte := h.edit (fun m => (entropyByte env carry m).2) fun _ _ _ => rfl
      have hsame : (entropyByte env carry m').1 = (entropyByte env carry m).1 ∧
          (entropyByte env carry m').2.entropyState = (entropyByte env carry m).2.entropyState := by
        obtain ⟨udp, log, rfl, -⟩ := h
        exact ⟨rfl, rfl⟩
      rw [C64WireGuard.entropyLoop, C64WireGuard.entropyLoop]
      rw [hsame.1, hsame.2]
      exact ih hbyte _ _

theorem entropyFill (h : Twins m m') (env : Env σ) (n : Nat) (carry : Bool) :
    (entropyFill env n carry m').1 = (entropyFill env n carry m).1 ∧
      (entropyFill env n carry m').2.1 = (entropyFill env n carry m).2.1 ∧
      Twins (entropyFill env n carry m).2.2 (entropyFill env n carry m').2.2 := by
  obtain ⟨hbytes, hcarry, htwins⟩ := h.entropyLoop env n [] carry
  refine ⟨?_, hcarry, htwins⟩
  rw [C64WireGuard.entropyFill, C64WireGuard.entropyFill, hbytes]

theorem sessionPrepare (h : Twins m m') (env : Env σ) :
    Twins (sessionPrepare env m) (sessionPrepare env m') := by
  rw [C64WireGuard.sessionPrepare, C64WireGuard.sessionPrepare]
  obtain ⟨hcarry, hload⟩ := h.configLoad env
  generalize C64WireGuard.configLoad env m = c at *
  generalize C64WireGuard.configLoad env m' = c' at *
  obtain ⟨carry, m₁⟩ := c
  obtain ⟨carry', m₁'⟩ := c'
  dsimp only at hcarry hload ⊢
  subst hcarry
  obtain ⟨hpriv, hcarry, hfill⟩ := hload.entropyFill env 32 carry'
  generalize C64WireGuard.entropyFill env 32 carry' m₁ = r at *
  generalize C64WireGuard.entropyFill env 32 carry' m₁' = r' at *
  obtain ⟨priv, carry, m₂⟩ := r
  obtain ⟨priv', carry', m₂'⟩ := r'
  dsimp only at hpriv hcarry hfill ⊢
  subst hpriv hcarry
  obtain ⟨hidx, -, hfill⟩ :=
    (hfill.edit (fun m => { m with hs := { m.hs with hsEphemPriv := priv' } })
      fun _ _ _ => rfl).entropyFill env 4 carry'
  dsimp only at hidx hfill
  generalize C64WireGuard.entropyFill env 4 carry'
    { m₂ with hs := { m₂.hs with hsEphemPriv := priv' } } = r at *
  generalize C64WireGuard.entropyFill env 4 carry'
    { m₂' with hs := { m₂'.hs with hsEphemPriv := priv' } } = r' at *
  obtain ⟨idx, carry, m₃⟩ := r
  obtain ⟨idx', carry', m₃'⟩ := r'
  dsimp only at hidx hfill ⊢
  subst hidx
  have hclock := (hfill.edit (fun m => { m with hs := { m.hs with hsSenderIdx := idx' } })
    fun _ _ _ => rfl).elapse env
  exact hclock.edit (fun m => { m with
    tai := (tai64nNow m.jiffy m.cfg.tai64nBaseTime m.tai).1
    hs := { m.hs with hsTimestamp := (tai64nNow m.jiffy m.cfg.tai64nBaseTime m.tai).2 } })
    fun _ _ _ => rfl

theorem sendInitiation (h : Twins m m') (env : Env σ) :
    (sendInitiation env m').2 = (sendInitiation env m).2 ∧
      Twins (sendInitiation env m).1 (sendInitiation env m').1 := by
  have hbuilt := h.edit
    (fun m => sessionStageDest { m with hs := hsCreateInitiation env.prims m.hs }) fun _ _ _ => rfl
  have hsent := hbuilt.netUdpSend env (hsCreateInitiation env.prims m.hs).hsPacket.toList
  rw [h.hs_eq] at hsent
  rw [C64WireGuard.sendInitiation, C64WireGuard.sendInitiation, h.hs_eq]
  exact hsent

theorem sessionInitiate (h : Twins m m') (env : Env σ) :
    Twins (sessionInitiate env m) (sessionInitiate env m') := by
  obtain ⟨hcarry, hsent⟩ := (h.sessionPrepare env).sendInitiation env
  rw [C64WireGuard.sessionInitiate, C64WireGuard.sessionInitiate, hcarry]
  split
  · exact (hsent.sessionReset env).log _
  · exact ((hsent.setState .hsSent).timerSessionStart env).edit
      (fun m => { m with timer := { m.timer with hsTimerArmed := true } }) fun _ _ _ => rfl

/-! ### A decrypted packet -/

theorem endpointUpdate (h : Twins m m') (env : Env σ) :
    Twins (endpointUpdate env m) (endpointUpdate env m') := by
  have hsame : m'.udp.udpRecvSrc = m.udp.udpRecvSrc ∧ m'.wgPeer = m.wgPeer := by
    obtain ⟨udp, log, rfl, hsrc, -⟩ := h
    exact ⟨hsrc, rfl⟩
  rw [C64WireGuard.endpointUpdate, C64WireGuard.endpointUpdate, hsame.1, hsame.2]
  split
  · exact h
  · have hmoved := h.edit (fun m' => { m' with wgPeer := m.udp.udpRecvSrc }) fun _ _ _ => rfl
    exact hmoved.netUdpClose env

theorem printPacket (h : Twins m m') (off len : Nat) :
    Twins (printPacket off len m) (printPacket off len m') := by
  rw [C64WireGuard.printPacket, C64WireGuard.printPacket, h.tp_eq]
  exact h.chroutAll _

theorem displayPayload (h : Twins m m') : Twins (displayPayload m) (displayPayload m') := by
  rw [C64WireGuard.displayPayload, C64WireGuard.displayPayload, h.tp_eq]
  exact (h.log _).printPacket _ _

theorem handleIcmp (h : Twins m m') : Twins (handleIcmp m) (handleIcmp m') := by
  rw [C64WireGuard.handleIcmp, C64WireGuard.handleIcmp, h.tp_eq]
  split
  · exact h.log _
  · exact h.displayPayload

theorem handleUdp (h : Twins m m') (env : Env σ) : Twins (handleUdp env m) (handleUdp env m') := by
  have hparsed := h.edit (fun m => { m with ip := (udpTunnelParse env.build m.tp m.ip).2 })
    fun _ _ _ => rfl
  have hsame : udpTunnelParse env.build m'.tp m'.ip = udpTunnelParse env.build m.tp m.ip := by
    obtain ⟨udp, log, rfl, -⟩ := h
    rfl
  rw [hsame] at hparsed
  rw [C64WireGuard.handleUdp, C64WireGuard.handleUdp, hsame]
  dsimp only
  split
  · exact (hparsed.log _).printPacket _ _
  · exact hparsed.displayPayload

theorem routePayload (h : Twins m m') (env : Env σ) :
    Twins (routePayload env m) (routePayload env m') := by
  rw [C64WireGuard.routePayload, C64WireGuard.routePayload, h.tp_eq]
  split
  · exact h.handleIcmp
  · split
    · exact h.handleUdp env
    · exact h.displayPayload

end Twins

/-! ## Type 4 packets -/

/-- A Type 4 packet too short for a header and a tag. -/
theorem handleType4_short (env : Env σ) {m : Machine σ} (hlen : m.udp.udpRecvLen < 32) :
    (handleType4 env m).outcome = m.outcome := by
  rw [handleType4]
  split
  · let tp := { m.tp with
      tpPacket := copy16 m.tp.tpPacket 0 m.udp.udpRecvBuf 0 m.udp.udpRecvLen
      tpPacketLen := m.udp.udpRecvLen }
    have hacc : accepts env.prims m.hs.hsTransportRecv m.udp tp = false := by
      rw [accepts, authentic, decide_eq_false (Nat.not_le.mpr hlen), Bool.false_and, Bool.and_false]
    obtain ⟨hyes, -⟩ | ⟨-, c', t', heq, -, hsess⟩ :=
      transportDecrypt_cases env.prims m.hs.hsTransportRecv m.udp m.hs.toCryptoMem tp
    · rw [hacc] at hyes
      cases hyes
    · have hcall : callTransportDecrypt env m =
          (false, ({ m with hs := { m.hs with toCryptoMem := c' }, tp := t' } : Machine σ).log
            (.transportDecrypt m.hs.hsTransportRecv false m.ticks)) := by
        simp only [callTransportDecrypt]
        rw [heq]
      rw [hcall, if_neg Bool.false_ne_true]
      simp only [Machine.outcome, Machine.liveCells, Machine.printString, Machine.log, hsess]
      rfl
  · rfl

/-- A longer one is read up to `udp_recv_len`. -/
theorem handleType4_long (env : Env σ) {m : Machine σ} {buf : Bytes udpRecvBufSize}
    (h : SameReceived m.udp buf) (hlen : 32 ≤ m.udp.udpRecvLen) :
    Twins (handleType4 env m) (handleType4 env (m.withBuf buf)) := by
  have hsame : slice buf 0 m.udp.udpRecvLen = slice m.udp.udpRecvBuf 0 m.udp.udpRecvLen :=
    h.slice_eq (Nat.zero_add _).le
  have hcall : (callTransportDecrypt env (m.withBuf buf)).1 = (callTransportDecrypt env m).1 ∧
      Twins (callTransportDecrypt env m).2 (callTransportDecrypt env (m.withBuf buf)).2 := by
    have hcopy : copy16 m.tp.tpPacket 0 buf 0 m.udp.udpRecvLen =
        copy16 m.tp.tpPacket 0 m.udp.udpRecvBuf 0 m.udp.udpRecvLen := by
      rw [copy16_eq, copy16_eq, hsame]
    have hdecrypt := @transportDecrypt_congr env.prims m.hs.hsTransportRecv m.udp
      (m.withBuf buf).udp m.hs.toCryptoMem
      { m.tp with
        tpPacket := copy16 m.tp.tpPacket 0 m.udp.udpRecvBuf 0 m.udp.udpRecvLen
        tpPacketLen := m.udp.udpRecvLen } rfl hlen hsame
    simp only [callTransportDecrypt, Machine.withBuf] at hdecrypt ⊢
    rw [hcopy, hdecrypt]
    exact ⟨rfl, _, _, rfl, rfl, rfl⟩
  rw [handleType4, handleType4]
  by_cases hactive : m.wgState = .active
  · rw [if_pos hactive, if_pos (show (m.withBuf buf).wgState = .active from hactive)]
    dsimp only
    rw [hcall.1]
    split
    · exact (hcall.2.endpointUpdate env).routePayload env
    · exact hcall.2.log _
  · rw [if_neg hactive, if_neg (show (m.withBuf buf).wgState ≠ .active from hactive)]
    exact ⟨_, _, rfl, rfl, rfl⟩

/-! ## Tags -/

/-- A tag for a key, a nonce, associated data and a ciphertext. -/
abbrev TagOf := Bytes 32 → Bytes 12 → List UInt8 → {n : Nat} → Bytes n → Bytes 16

/-- `aead_decrypt` compares with the one tag of its operands. What it leaves in the data buffer on a
mismatch is up to it, but the same for every wrong tag. -/
structure AeadTag (p : Primitives) (tag : TagOf) : Prop where
  accepts : ∀ (key : Bytes 32) (nonce : Bytes 12) (aad : List UInt8) {n : Nat} (data : Bytes n)
    (t : Bytes 16), (p.aeadDecrypt key nonce aad data t).1 = true ↔ t = tag key nonce aad data
  rejects : ∀ (key : Bytes 32) (nonce : Bytes 12) (aad : List UInt8) {n : Nat} (data : Bytes n)
    (t t' : Bytes 16), (p.aeadDecrypt key nonce aad data t).1 = false →
      (p.aeadDecrypt key nonce aad data t').1 = false →
      (p.aeadDecrypt key nonce aad data t').2 = (p.aeadDecrypt key nonce aad data t).2

/-- A received byte of the field at `off` is not that of `field`. -/
def Spoiled (udp : UdpRecv) (off : Nat) {n : Nat} (field : Bytes n) : Prop :=
  ∃ i < n, off + i < udp.udpRecvLen ∧ byte udp.udpRecvBuf (off + i) ≠ byte field i

/-- A field that the received bytes do not spoil can be put in place behind them. -/
theorem sameReceived_copyIn {udp : UdpRecv} {off n : Nat} {field : Bytes n}
    (h : ¬ Spoiled udp off field) : SameReceived udp (copyIn udp.udpRecvBuf off field) := by
  intro i hi
  rw [byte_copyIn]
  split
  · rename_i hin
    by_contra hne
    have hoff : off + (i - off) = i := by omega
    exact h ⟨i - off, by omega, by rwa [hoff], by rw [hoff]; exact Ne.symm hne⟩
  · rfl

theorem SameReceived.trans {udp : UdpRecv} {b b' : Bytes udpRecvBufSize} (h : SameReceived udp b)
    (h' : SameReceived { udp with udpRecvBuf := b } b') : SameReceived udp b' := fun i hi =>
  (h' i hi).trans (h i hi)

theorem sameReceived_put {udp : UdpRecv} {i : Nat} (hi : udp.udpRecvLen ≤ i) (x : UInt8) :
    SameReceived udp (put udp.udpRecvBuf i x) := by
  intro j hj
  rw [byte_put, if_neg (by omega)]

/-- Changing the last byte of a field changes the field. -/
theorem slice_put_last (b : Bytes udpRecvBufSize) {off n : Nat} (h : off + n < udpRecvBufSize) :
    slice (put b (off + n) (byte b (off + n) + 1)) off (n + 1) ≠ slice b off (n + 1) := by
  intro heq
  have hbyte := congrArg (fun b => byte b n) heq
  simp only [byte_slice, if_pos (Nat.lt_succ_self n), byte_put] at hbyte
  rw [if_pos ⟨trivial, h⟩] at hbyte
  exact absurd hbyte (by simp)

/-- A field that is not spoiled and not all received can come out right and can come out wrong, with
everything before it as it was. -/
theorem exists_completions {udp : UdpRecv} {off n : Nat} {field : Bytes (n + 1)}
    (hfit : off + n < udpRecvBufSize) (hlen : udp.udpRecvLen ≤ off + n)
    (h : ¬ Spoiled udp off field) :
    ∃ b b', (SameReceived udp b ∧ slice b off (n + 1) = field) ∧
      (SameReceived udp b' ∧ slice b' off (n + 1) ≠ field) ∧
      ∀ off' k, off' + k ≤ off → slice b off' k = slice udp.udpRecvBuf off' k ∧
        slice b' off' k = slice udp.udpRecvBuf off' k := by
  have hb := sameReceived_copyIn h
  have hfield : slice (copyIn udp.udpRecvBuf off field) off (n + 1) = field :=
    slice_copyIn_self _ _ hfit
  have hfront : ∀ off' k, off' + k ≤ off →
      slice (copyIn udp.udpRecvBuf off field) off' k = slice udp.udpRecvBuf off' k :=
    fun off' k hk => slice_copyIn_disjoint _ _ (.inr hk)
  generalize copyIn udp.udpRecvBuf off field = b at *
  refine ⟨b, put b (off + n) (byte b (off + n) + 1), ⟨hb, hfield⟩,
    ⟨hb.trans (@sameReceived_put { udp with udpRecvBuf := b } _ hlen _), ?_⟩, ?_⟩
  · rw [← hfield]
    exact slice_put_last b hfit
  · intro off' k hk
    refine ⟨hfront off' k hk, ?_⟩
    rw [← hfront off' k hk]
    apply ext_byte
    intro i hi
    rw [byte_slice, byte_slice, if_pos hi, if_pos hi, byte_put, if_neg (by omega)]

/-- A spoiled field is wrong whatever lies behind the received bytes. -/
theorem Spoiled.slice_ne {udp : UdpRecv} {buf : Bytes udpRecvBufSize} {off n : Nat}
    {field : Bytes n} (h : Spoiled udp off field) (hsame : SameReceived udp buf) :
    slice buf off n ≠ field := by
  obtain ⟨i, hi, hlen, hne⟩ := h
  intro heq
  have hbyte := congrArg (fun b => byte b i) heq
  rw [byte_slice, if_pos hi, hsame _ hlen] at hbyte
  exact hne hbyte

/-! ## Type 2 packets -/

section Response

variable {p : Primitives} {tag : TagOf}

/-- The tag of the response with this ephemeral key. -/
def responseTag (p : Primitives) (tag : TagOf) (hs : HsMem) (buf : Bytes udpRecvBufSize) :
    Bytes 16 :=
  let k := responseState p { hs with hsRespPacket := slice buf 0 92 }
  tag k.2 (zero 12) k.1.h.toList (zero 0)

theorem responseTag_congr (tag : TagOf) (hs : HsMem) {a b : Bytes udpRecvBufSize}
    (h : slice a 12 32 = slice b 12 32) : responseTag p tag hs a = responseTag p tag hs b := by
  have heph : slice (slice a 0 92) 12 32 = slice (slice b 0 92) 12 32 := by
    rw [slice_slice _ _ (by decide), slice_slice _ _ (by decide)]
    exact h
  rw [responseTag, responseTag, responseState_congr p hs heph]

/-- Noise reads the ephemeral key and the tag. -/
theorem response_packet_congr (p : Primitives) (hs : HsMem) {a b : Bytes 92}
    (h : slice a 12 48 = slice b 12 48) :
    response p { hs with hsRespPacket := a } = response p { hs with hsRespPacket := b } := by
  simp only [response, responseMsg, h]
  rfl

/-- The verdict on the response in `buf`. -/
theorem hsProcessResponse_iff (hp : AeadTag p tag) (hs : HsMem) (buf : Bytes udpRecvBufSize) :
    (hsProcessResponse p { hs with hsRespPacket := slice buf 0 92 }).1 = true ↔
      slice buf 44 16 = responseTag p tag hs buf := by
  have htag : slice (slice buf 0 92) 44 16 = slice buf 44 16 := slice_slice _ _ (by decide)
  rw [hsProcessResponse_fst, hp.accepts, htag, responseTag]

variable {env : Env σ} {m : Machine σ}

/-- A rejected response: what comes of it is no matter of the tag. -/
theorem handleType2_rejected (hst : m.wgState = .hsSent)
    (hno : (hsProcessResponse env.prims
      { m.hs with hsRespPacket := slice m.udp.udpRecvBuf 0 92 }).1 = false) :
    (handleType2 env m).outcome =
      ((.idle, (m.hs.hsTransportSend, m.hs.hsTransportRecv), m.tp.session, m.wgPeer,
          { m.timer with hsTimerArmed := false }, (m.hs.cookieBuf, m.hs.cookieValid)),
        m.hs.inputs,
        (responseState env.prims { m.hs with hsRespPacket := slice m.udp.udpRecvBuf 0 92 }).1,
        datagrams m.trace) := by
  obtain ⟨cm, dh, s, -, ⟨-, heq⟩ | ⟨-, heq⟩⟩ := hsProcessResponse_spec env.prims
    { m.hs with hsRespPacket := slice m.udp.udpRecvBuf 0 92 }
  · rw [heq] at hno
    cases hno
  · rw [handleType2, if_pos hst, callHsProcessResponse, heq]
    rfl

/-- An accepted one: the keys are those of the Noise state. -/
theorem handleType2_accepted (hst : m.wgState = .hsSent) {s : Noise.Symmetric}
    (hr : response env.prims { m.hs with hsRespPacket := slice m.udp.udpRecvBuf 0 92 } =
      some (s, [])) :
    (handleType2 env m).outcome =
      ((.active, Noise.split (c64Suite env.prims) s,
          (zero 8, zero 8, slice m.udp.udpRecvBuf 4 4, zero 256, zero 8), m.wgPeer,
          (timerSessionStart env m).timer, (m.hs.cookieBuf, m.hs.cookieValid)),
        m.hs.inputs, s, datagrams m.trace) := by
  obtain ⟨cm, dh, s', -, ⟨hr', heq⟩ | ⟨hr', -⟩⟩ := hsProcessResponse_spec env.prims
    { m.hs with hsRespPacket := slice m.udp.udpRecvBuf 0 92 }
  · rw [hr] at hr'
    injection hr' with hr'
    injection hr' with hr'
    subst hr'
    have hidx : slice (slice m.udp.udpRecvBuf 0 92) 4 4 = slice m.udp.udpRecvBuf 4 4 :=
      slice_slice _ _ (by decide)
    rw [handleType2, if_pos hst, callHsProcessResponse, heq, ← hidx]
    rfl
  · rw [hr] at hr'
    cases hr'

/-- Whether the session begins is the verdict. -/
theorem handleType2_wgState (hst : m.wgState = .hsSent) :
    (handleType2 env m).wgState =
      if (hsProcessResponse env.prims
        { m.hs with hsRespPacket := slice m.udp.udpRecvBuf 0 92 }).1 then .active else .idle := by
  rw [handleType2, if_pos hst, callHsProcessResponse]
  generalize hsProcessResponse env.prims
    { m.hs with hsRespPacket := slice m.udp.udpRecvBuf 0 92 } = r
  obtain ⟨ok, hs⟩ := r
  cases ok with
  | true => rfl
  | false => rfl

variable {buf : Bytes udpRecvBufSize}

/-- From the tag on nothing of a response is read. -/
theorem handleType2_whole (hst : m.wgState = .hsSent) (h : SameReceived m.udp buf)
    (hlen : 60 ≤ m.udp.udpRecvLen) :
    (handleType2 env (m.withBuf buf)).outcome = (handleType2 env m).outcome := by
  have hslice : ∀ off n, off + n ≤ 60 → slice buf off n = slice m.udp.udpRecvBuf off n :=
    fun off n hfit => h.slice_eq (hfit.trans hlen)
  have hmsg : slice (slice buf 0 92) 12 48 = slice (slice m.udp.udpRecvBuf 0 92) 12 48 := by
    rw [slice_slice _ _ (by decide), slice_slice _ _ (by decide)]
    exact hslice 12 48 (by decide)
  have heph : slice (slice buf 0 92) 12 32 = slice (slice m.udp.udpRecvBuf 0 92) 12 32 := by
    rw [slice_slice _ _ (by decide), slice_slice _ _ (by decide)]
    exact hslice 12 32 (by decide)
  have hresp := response_packet_congr env.prims m.hs hmsg
  have hst' : (m.withBuf buf).wgState = .hsSent := hst
  obtain ⟨cm, dh, s, -, ⟨hr, -⟩ | ⟨hr, heq⟩⟩ := hsProcessResponse_spec env.prims
    { m.hs with hsRespPacket := slice m.udp.udpRecvBuf 0 92 }
  · have htwins : Twins m (m.withBuf buf) := ⟨_, _, rfl, rfl, rfl⟩
    have hidx : slice (m.withBuf buf).udp.udpRecvBuf 4 4 = slice m.udp.udpRecvBuf 4 4 :=
      hslice 4 4 (by decide)
    rw [handleType2_accepted hst hr, handleType2_accepted hst' (hresp.trans hr), hidx,
      (htwins.timerSessionStart env).timer_eq]
    rfl
  · obtain ⟨cm', dh', s', -, ⟨hr', -⟩ | ⟨-, heq'⟩⟩ := hsProcessResponse_spec env.prims
      { m.hs with hsRespPacket := slice buf 0 92 }
    · rw [hresp, hr] at hr'
      cases hr'
    · rw [handleType2_rejected hst (congrArg Prod.fst heq),
        handleType2_rejected hst' (congrArg Prod.fst heq')]
      simp only [Machine.withBuf, responseState_congr env.prims m.hs heph]

/-- A response with a wrong byte in its tag is rejected, whatever follows. -/
theorem handleType2_spoiled (hp : AeadTag env.prims tag) (hst : m.wgState = .hsSent)
    (h : SameReceived m.udp buf)
    (hspoiled : Spoiled m.udp 44 (responseTag env.prims tag m.hs m.udp.udpRecvBuf)) :
    (handleType2 env (m.withBuf buf)).outcome = (handleType2 env m).outcome := by
  have hlen : 44 ≤ m.udp.udpRecvLen := by
    obtain ⟨i, -, hi, -⟩ := hspoiled
    omega
  have heph : slice buf 12 32 = slice m.udp.udpRecvBuf 12 32 := h.slice_eq hlen
  have htag := responseTag_congr (p := env.prims) tag m.hs heph
  have hno : ∀ b, SameReceived m.udp b → slice b 12 32 = slice m.udp.udpRecvBuf 12 32 →
      (hsProcessResponse env.prims { m.hs with hsRespPacket := slice b 0 92 }).1 = false := by
    intro b hb hephb
    apply Bool.eq_false_of_not_eq_true
    rw [hsProcessResponse_iff hp, responseTag_congr tag m.hs hephb]
    exact hspoiled.slice_ne hb
  have heph' : slice (slice buf 0 92) 12 32 = slice (slice m.udp.udpRecvBuf 0 92) 12 32 := by
    rw [slice_slice _ _ (by decide), slice_slice _ _ (by decide)]
    exact heph
  rw [handleType2_rejected hst (hno _ (fun _ _ => rfl) rfl),
    handleType2_rejected (m := m.withBuf buf) hst (hno buf h heph)]
  simp only [Machine.withBuf, responseState_congr env.prims m.hs heph']

/-- Any other short response is completed by what lies behind it, to one that is accepted or to one
that is not. -/
theorem handleType2_completed (hp : AeadTag env.prims tag) (hst : m.wgState = .hsSent)
    (hlen : m.udp.udpRecvLen < 60)
    (hclean : ¬ Spoiled m.udp 44 (responseTag env.prims tag m.hs m.udp.udpRecvBuf)) :
    ∃ b b', SameReceived m.udp b ∧ SameReceived m.udp b' ∧
      (handleType2 env (m.withBuf b)).wgState = .active ∧
      (handleType2 env (m.withBuf b')).wgState = .idle := by
  generalize htag : responseTag env.prims tag m.hs m.udp.udpRecvBuf = t at hclean
  obtain ⟨b, b', ⟨hb, hfield⟩, ⟨hb', hfield'⟩, hfront⟩ :=
    exists_completions (n := 15) (by decide) (Nat.le_of_lt_succ hlen) hclean
  obtain ⟨heph, heph'⟩ := hfront 12 32 (by decide)
  refine ⟨b, b', hb, hb', ?_, ?_⟩
  · rw [handleType2_wgState (m := m.withBuf b) hst]
    exact if_pos ((hsProcessResponse_iff hp m.hs b).mpr
      (hfield.trans (htag.symm.trans (responseTag_congr tag m.hs heph).symm)))
  · rw [handleType2_wgState (m := m.withBuf b') hst]
    exact if_neg fun hok => hfield' (((hsProcessResponse_iff hp m.hs b').mp hok).trans
      ((responseTag_congr tag m.hs heph').trans htag))

end Response

/-! ## Type 3 packets -/

section Reply

variable {p : Primitives} {tag : TagOf}

/-- The tag of the reply with this nonce and cookie. -/
def replyTag (p : Primitives) (tag : TagOf) (pub : Bytes 32) (hs : HsMem) (udp : UdpRecv) :
    Bytes 16 :=
  tag (hchachaKey p (cookieKey pub) (slice (replyNonce udp) 0 16))
    (copyIn (zero 12) 4 (slice (replyNonce udp) 16 8)) (slice hs.hsPacket 116 16).toList
    (slice udp.udpRecvBuf 32 16)

theorem openCookie_iff (hp : AeadTag p tag) (pub : Bytes 32) (hs : HsMem) (udp : UdpRecv) :
    (openCookie p pub udp (slice hs.hsPacket 116 16)).1 = true ↔
      slice udp.udpRecvBuf 48 16 = replyTag p tag pub hs udp :=
  hp.accepts _ _ _ _ _

/-- What a reply is opened with, apart from its tag, and what a wrong tag leaves. -/
theorem openCookie_congr (hp : AeadTag p tag) (pub : Bytes 32) (hs : HsMem) (udp udp' : UdpRecv)
    (h : slice udp'.udpRecvBuf 8 40 = slice udp.udpRecvBuf 8 40) :
    replyTag p tag pub hs udp' = replyTag p tag pub hs udp ∧
      ((openCookie p pub udp (slice hs.hsPacket 116 16)).1 = false →
        (openCookie p pub udp' (slice hs.hsPacket 116 16)).1 = false →
        (openCookie p pub udp' (slice hs.hsPacket 116 16)).2 =
          (openCookie p pub udp (slice hs.hsPacket 116 16)).2) := by
  have hnonce : replyNonce udp' = replyNonce udp := by
    have hfield := congrArg (fun b => slice b 0 24) h
    rwa [slice_slice _ _ (by decide), slice_slice _ _ (by decide)] at hfield
  have hdata : slice udp'.udpRecvBuf 32 16 = slice udp.udpRecvBuf 32 16 := by
    have hfield := congrArg (fun b => slice b 24 16) h
    rwa [slice_slice _ _ (by decide), slice_slice _ _ (by decide)] at hfield
  simp only [replyTag, openCookie, hnonce, hdata]
  exact ⟨trivial, hp.rejects _ _ _ _ _ _⟩

variable {env : Env σ} {m : Machine σ} {buf : Bytes udpRecvBufSize}

/-- A reply that does not name the index, or comes when nothing was sent, is not looked at. -/
theorem handleType3_refused (hst : m.wgState = .hsSent)
    (hno : ¬ (slice m.udp.udpRecvBuf 4 4 = m.hs.hsSenderIdx ∧ m.hs.hsMac1Valid = true)) :
    (handleType3 env m).outcome = m.outcome := by
  rw [handleType3, if_pos hst, callCookieHandleType3, cookieHandleType3, if_neg hno]
  rfl

/-- One that is looked at and does not open leaves its remains in `cookie_buf`. -/
theorem handleType3_rejected (hst : m.wgState = .hsSent)
    (hpre : slice m.udp.udpRecvBuf 4 4 = m.hs.hsSenderIdx ∧ m.hs.hsMac1Valid = true)
    (hno : (openCookie env.prims m.cfg.cfgPeerPub m.udp (slice m.hs.hsPacket 116 16)).1 = false) :
    (handleType3 env m).outcome =
      { m with
        hs := { m.hs with
          cookieBuf := copyIn m.hs.cookieBuf 0
            (openCookie env.prims m.cfg.cfgPeerPub m.udp
              (slice m.hs.hsPacket 116 16)).2 } }.outcome := by
  obtain ⟨cm, -, heq⟩ := cookieHandleType3_spec env.prims m.cfg.cfgPeerPub m.udp m.hs
  rw [if_pos hpre] at heq
  rw [handleType3, if_pos hst, callCookieHandleType3, heq]
  dsimp only
  rw [hno, if_neg Bool.false_ne_true, Bool.or_false]
  rfl

/-- One that opens is answered with an initiation. -/
theorem handleType3_accepted (hst : m.wgState = .hsSent)
    (hpre : slice m.udp.udpRecvBuf 4 4 = m.hs.hsSenderIdx ∧ m.hs.hsMac1Valid = true)
    (hok : (openCookie env.prims m.cfg.cfgPeerPub m.udp (slice m.hs.hsPacket 116 16)).1 = true) :
    (datagrams m.trace).length < (datagrams (handleType3 env m).trace).length := by
  obtain ⟨cm, -, heq⟩ := cookieHandleType3_spec env.prims m.cfg.cfgPeerPub m.udp m.hs
  rw [if_pos hpre] at heq
  rw [handleType3, if_pos hst, callCookieHandleType3, heq]
  dsimp only
  rw [if_pos hok]
  generalize hm' : Machine.printString _ Str.cookieRecvMsg = m'
  have htrace : datagrams m'.trace = datagrams m.trace := by
    rw [← hm']
    rfl
  obtain ⟨newer, dest, carry, hlog, -⟩ := sessionInitiate_log env m'
  rw [hlog, ← htrace]
  simp only [datagrams, List.filterMap_append, List.filterMap_cons, Event.datagram,
    List.length_append, List.length_cons]
  omega

/-- A whole reply is read up to its end. -/
theorem handleType3_whole (hst : m.wgState = .hsSent) (h : SameReceived m.udp buf)
    (hlen : 64 ≤ m.udp.udpRecvLen) :
    Twins (handleType3 env m) (handleType3 env (m.withBuf buf)) := by
  have hslice : ∀ off n, off + n ≤ 64 → slice buf off n = slice m.udp.udpRecvBuf off n :=
    fun off n hfit => h.slice_eq (hfit.trans hlen)
  have hcookie : cookieHandleType3 env.prims m.cfg.cfgPeerPub (m.withBuf buf).udp m.hs =
      cookieHandleType3 env.prims m.cfg.cfgPeerPub m.udp m.hs := by
    simp only [cookieHandleType3, cookieStage, Machine.withBuf, hslice 4 4 (by decide),
      hslice 8 4 (by decide), hslice 12 12 (by decide), hslice 24 8 (by decide),
      hslice 32 16 (by decide), hslice 48 16 (by decide)]
  have hcall : (callCookieHandleType3 env (m.withBuf buf)).1 = (callCookieHandleType3 env m).1 ∧
      Twins (callCookieHandleType3 env m).2 (callCookieHandleType3 env (m.withBuf buf)).2 := by
    simp only [callCookieHandleType3]
    rw [show (m.withBuf buf).hs = m.hs from rfl, show (m.withBuf buf).cfg = m.cfg from rfl, hcookie]
    exact ⟨rfl, _, _, rfl, rfl, rfl⟩
  have hst' : (m.withBuf buf).wgState = .hsSent := hst
  rw [handleType3, handleType3, if_pos hst, if_pos hst']
  dsimp only
  rw [hcall.1]
  split
  · exact (hcall.2.log _).sessionInitiate env
  · exact hcall.2

/-- A reply with a wrong byte in its tag is rejected, whatever follows. -/
theorem handleType3_spoiled (hp : AeadTag env.prims tag) (hst : m.wgState = .hsSent)
    (h : SameReceived m.udp buf)
    (hspoiled : Spoiled m.udp 48 (replyTag env.prims tag m.cfg.cfgPeerPub m.hs m.udp)) :
    (handleType3 env (m.withBuf buf)).outcome = (handleType3 env m).outcome := by
  have hlen : 48 ≤ m.udp.udpRecvLen := by
    obtain ⟨i, -, hi, -⟩ := hspoiled
    omega
  have hidx : slice buf 4 4 = slice m.udp.udpRecvBuf 4 4 := h.slice_eq (by omega)
  obtain ⟨htag, hleft⟩ := openCookie_congr hp m.cfg.cfgPeerPub m.hs m.udp (m.withBuf buf).udp
    (h.slice_eq hlen)
  have hno : (openCookie env.prims m.cfg.cfgPeerPub m.udp (slice m.hs.hsPacket 116 16)).1 = false :=
    Bool.eq_false_of_not_eq_true fun hok => hspoiled.slice_ne (fun _ _ => rfl)
      ((openCookie_iff hp _ _ _).mp hok)
  have hno' : (openCookie env.prims m.cfg.cfgPeerPub (m.withBuf buf).udp
      (slice m.hs.hsPacket 116 16)).1 = false :=
    Bool.eq_false_of_not_eq_true fun hok => hspoiled.slice_ne h
      (((openCookie_iff hp _ _ _).mp hok).trans htag)
  by_cases hpre : slice m.udp.udpRecvBuf 4 4 = m.hs.hsSenderIdx ∧ m.hs.hsMac1Valid = true
  · rw [handleType3_rejected hst hpre hno,
      handleType3_rejected (m := m.withBuf buf) hst ⟨hidx.trans hpre.1, hpre.2⟩ hno',
      ← hleft hno hno']
    rfl
  · rw [handleType3_refused hst hpre, handleType3_refused (m := m.withBuf buf) hst
      fun hpre' => hpre ⟨hidx.symm.trans hpre'.1, hpre'.2⟩]
    rfl

/-- A reply with a wrong byte in its index is not looked at, whatever follows. -/
theorem handleType3_misnamed (hst : m.wgState = .hsSent) (h : SameReceived m.udp buf)
    (hspoiled : Spoiled m.udp 4 m.hs.hsSenderIdx) :
    (handleType3 env (m.withBuf buf)).outcome = m.outcome :=
  handleType3_refused (m := m.withBuf buf) hst fun hpre => hspoiled.slice_ne h hpre.1

/-- Any other short reply to an initiation is completed by what lies behind it, to one that is
answered or to one that is not. -/
theorem handleType3_completed (hp : AeadTag env.prims tag) (hst : m.wgState = .hsSent)
    (hvalid : m.hs.hsMac1Valid = true) (hlen : m.udp.udpRecvLen < 64)
    (hnamed : ¬ Spoiled m.udp 4 m.hs.hsSenderIdx)
    (hclean : ¬ Spoiled m.udp 48 (replyTag env.prims tag m.cfg.cfgPeerPub m.hs m.udp)) :
    ∃ b b', SameReceived m.udp b ∧ SameReceived m.udp b' ∧
      datagrams (handleType3 env (m.withBuf b')).trace = datagrams m.trace ∧
      (datagrams m.trace).length < (datagrams (handleType3 env (m.withBuf b)).trace).length := by
  generalize htag : replyTag env.prims tag m.cfg.cfgPeerPub m.hs m.udp = t at hclean
  obtain ⟨b₀, hb₀, hidx₀, hbody₀⟩ : ∃ b₀, SameReceived m.udp b₀ ∧ slice b₀ 4 4 = m.hs.hsSenderIdx ∧
      slice b₀ 8 40 = slice m.udp.udpRecvBuf 8 40 :=
    ⟨_, sameReceived_copyIn hnamed, slice_copyIn_self _ _ (by decide),
      slice_copyIn_disjoint _ _ (.inl (by decide))⟩
  have hclean₀ : ¬ Spoiled { m.udp with udpRecvBuf := b₀ } 48 t := by
    rintro ⟨i, hi, hrecv, hne⟩
    exact hclean ⟨i, hi, hrecv, hb₀ _ hrecv ▸ hne⟩
  obtain ⟨b, b', ⟨hb, hfield⟩, ⟨hb', hfield'⟩, hfront⟩ :=
    @exists_completions { m.udp with udpRecvBuf := b₀ } 48 15 t (by decide)
      (Nat.le_of_lt_succ hlen) hclean₀
  obtain ⟨hidx, hidx'⟩ := hfront 4 4 (by decide)
  obtain ⟨hbody, hbody'⟩ := hfront 8 40 (by decide)
  have hopens := (openCookie_congr hp m.cfg.cfgPeerPub m.hs m.udp (m.withBuf b).udp
    (hbody.trans hbody₀)).1
  have hopens' := (openCookie_congr hp m.cfg.cfgPeerPub m.hs m.udp (m.withBuf b').udp
    (hbody'.trans hbody₀)).1
  refine ⟨b, b', hb₀.trans hb, hb₀.trans hb', ?_, ?_⟩
  · have hno : (openCookie env.prims m.cfg.cfgPeerPub (m.withBuf b').udp
        (slice m.hs.hsPacket 116 16)).1 = false :=
      Bool.eq_false_of_not_eq_true fun hok => hfield'
        (((openCookie_iff hp _ _ _).mp hok).trans (hopens'.trans htag))
    have hout := handleType3_rejected (m := m.withBuf b') hst ⟨hidx'.trans hidx₀, hvalid⟩ hno
    exact congrArg (fun o => o.2.2.2) hout
  · exact handleType3_accepted (m := m.withBuf b) hst ⟨hidx.trans hidx₀, hvalid⟩
      ((openCookie_iff hp _ _ _).mpr (hfield.trans (hopens.trans htag).symm))

end Reply

/-! ## Every packet -/

/-- **The received bytes decide.** Outside `HS_SENT` they always do. In `HS_SENT` there must be a
type byte; a response must reach to the end of its tag or have a wrong byte in it, and so must a
reply unless its index is wrong or no initiation was sent. -/
def SettledByReceived (p : Primitives) (tag : TagOf) (m : Machine σ) : Prop :=
  m.wgState = .hsSent →
    0 < m.udp.udpRecvLen ∧
    (byte m.udp.udpRecvBuf 0 = 2 → 60 ≤ m.udp.udpRecvLen ∨
      Spoiled m.udp 44 (responseTag p tag m.hs m.udp.udpRecvBuf)) ∧
    (byte m.udp.udpRecvBuf 0 = 3 → 64 ≤ m.udp.udpRecvLen ∨ m.hs.hsMac1Valid = false ∨
      Spoiled m.udp 4 m.hs.hsSenderIdx ∨
      Spoiled m.udp 48 (replyTag p tag m.cfg.cfgPeerPub m.hs m.udp))

section Handle

variable {env : Env σ} {m : Machine σ} {buf : Bytes udpRecvBufSize} {tag : TagOf}

/-- The dispatch, with `udp_recv_ready` cleared. -/
theorem sessionHandlePacket_withBuf (env : Env σ) (m : Machine σ) (buf : Bytes udpRecvBufSize) :
    let m₀ := { m with udp := { m.udp with udpRecvReady := false } }
    sessionHandlePacket env (m.withBuf buf) =
      if byte buf 0 = 2 then handleType2 env (m₀.withBuf buf)
      else if byte buf 0 = 3 then handleType3 env (m₀.withBuf buf)
      else if byte buf 0 = 4 then handleType4 env (m₀.withBuf buf)
      else m₀.withBuf buf := rfl

/-- Outside `HS_SENT` only a Type 4 packet has an effect, and only a long one. -/
theorem outcome_short (hst : m.wgState ≠ .hsSent) (hlen : m.udp.udpRecvLen < 32) :
    (sessionHandlePacket env m).outcome = m.outcome := by
  rw [sessionHandlePacket]
  dsimp only
  split_ifs with h2 h3 h4
  · rw [handleType2, if_neg hst]
    rfl
  · rw [handleType3, if_neg hst]
    rfl
  · exact handleType4_short env (m := { m with udp := { m.udp with udpRecvReady := false } }) hlen
  · rfl

theorem outcome_unsent (hst : m.wgState ≠ .hsSent) (h : SameReceived m.udp buf) :
    (sessionHandlePacket env (m.withBuf buf)).outcome = (sessionHandlePacket env m).outcome := by
  by_cases hlen : m.udp.udpRecvLen < 32
  · rw [outcome_short hst hlen, outcome_short (m := m.withBuf buf) hst hlen]
    rfl
  · have hbyte : byte buf 0 = byte m.udp.udpRecvBuf 0 := h 0 (by omega)
    let m₀ : Machine σ := { m with udp := { m.udp with udpRecvReady := false } }
    rw [sessionHandlePacket_withBuf, sessionHandlePacket, hbyte]
    dsimp only
    split_ifs with h2 h3 h4
    · rw [handleType2, handleType2, if_neg (show m₀.wgState ≠ .hsSent from hst),
        if_neg (show (m₀.withBuf buf).wgState ≠ .hsSent from hst)]
      rfl
    · rw [handleType3, handleType3, if_neg (show m₀.wgState ≠ .hsSent from hst),
        if_neg (show (m₀.withBuf buf).wgState ≠ .hsSent from hst)]
      rfl
    · exact (handleType4_long env (m := m₀) h (Nat.le_of_not_lt hlen)).outcome
    · rfl

theorem outcome_settled (hp : AeadTag env.prims tag) (hst : m.wgState = .hsSent)
    (hdec : SettledByReceived env.prims tag m) (h : SameReceived m.udp buf) :
    (sessionHandlePacket env (m.withBuf buf)).outcome = (sessionHandlePacket env m).outcome := by
  obtain ⟨hpos, hresponse, hreply⟩ := hdec hst
  have hbyte : byte buf 0 = byte m.udp.udpRecvBuf 0 := h 0 hpos
  let m₀ : Machine σ := { m with udp := { m.udp with udpRecvReady := false } }
  rw [sessionHandlePacket_withBuf, sessionHandlePacket, hbyte]
  dsimp only
  split_ifs with h2 h3 h4
  · rcases hresponse h2 with hlen | hspoiled
    · exact handleType2_whole (m := m₀) hst h hlen
    · exact handleType2_spoiled (m := m₀) hp hst h hspoiled
  · rcases hreply h3 with hlen | hunsent | hmisnamed | hspoiled
    · exact (handleType3_whole (m := m₀) hst h hlen).outcome
    · have hno : ∀ b : Bytes udpRecvBufSize,
          ¬ (slice b 4 4 = m.hs.hsSenderIdx ∧ m.hs.hsMac1Valid = true) := by
        rintro b ⟨-, hvalid⟩
        rw [hunsent] at hvalid
        cases hvalid
      rw [handleType3_refused (m := m₀) hst (hno _),
        handleType3_refused (m := m₀.withBuf buf) hst (hno _)]
      rfl
    · rw [handleType3_misnamed (m := m₀) hst h hmisnamed,
        handleType3_refused (m := m₀) hst fun hpre => hmisnamed.slice_ne (fun _ _ => rfl) hpre.1]
    · exact handleType3_spoiled (m := m₀) hp hst h hspoiled
  · rw [handleType4, handleType4,
      if_neg (show m₀.wgState ≠ .active by rw [show m₀.wgState = .hsSent from hst]; decide),
      if_neg (show (m₀.withBuf buf).wgState ≠ .active by
        rw [show (m₀.withBuf buf).wgState = .hsSent from hst]; decide)]
    rfl
  · rfl

/-- Without a type byte the datagram is whatever an earlier one was. -/
theorem outcome_empty (env : Env σ) (hst : m.wgState = .hsSent) (hlen : m.udp.udpRecvLen = 0) :
    ∃ b b', SameReceived m.udp b ∧ SameReceived m.udp b' ∧
      (sessionHandlePacket env (m.withBuf b)).outcome ≠
        (sessionHandlePacket env (m.withBuf b')).outcome := by
  have hbyte : ∀ x, byte (put m.udp.udpRecvBuf 0 x) 0 = x := by
    intro x
    rw [byte_put, if_pos ⟨rfl, by decide⟩]
  refine ⟨put m.udp.udpRecvBuf 0 2, put m.udp.udpRecvBuf 0 0, sameReceived_put hlen.le _,
    sameReceived_put hlen.le _, fun heq => ?_⟩
  have hstate := congrArg (fun o => o.1.1) heq
  rw [sessionHandlePacket_withBuf, sessionHandlePacket_withBuf, hbyte, hbyte] at hstate
  let m₀ : Machine σ := { m with udp := { m.udp with udpRecvReady := false } }
  have hleft : (handleType2 env (m₀.withBuf (put m.udp.udpRecvBuf 0 2))).wgState = m.wgState :=
    hstate
  rw [handleType2_wgState (m := m₀.withBuf _) hst, hst] at hleft
  split at hleft
  · cases hleft
  · cases hleft

/-- **Only received bytes count, exactly when they decide.** -/
theorem sessionHandlePacket_residue (env : Env σ) (hp : AeadTag env.prims tag) (m : Machine σ) :
    (∀ buf, SameReceived m.udp buf →
      (sessionHandlePacket env (m.withBuf buf)).outcome = (sessionHandlePacket env m).outcome) ↔
    SettledByReceived env.prims tag m := by
  constructor
  · intro hall hst
    have hpair : ∀ {b b'}, SameReceived m.udp b → SameReceived m.udp b' →
        (sessionHandlePacket env (m.withBuf b)).outcome =
          (sessionHandlePacket env (m.withBuf b')).outcome := fun hb hb' =>
      (hall _ hb).trans (hall _ hb').symm
    let m₀ : Machine σ := { m with udp := { m.udp with udpRecvReady := false } }
    have hpos : 0 < m.udp.udpRecvLen := by
      by_contra hzero
      obtain ⟨b, b', hb, hb', hne⟩ := outcome_empty env hst (Nat.eq_zero_of_not_pos hzero)
      exact hne (hpair hb hb')
    refine ⟨hpos, fun h2 => ?_, fun h3 => ?_⟩
    · by_contra hshort
      obtain ⟨hlen, hclean⟩ := not_or.mp hshort
      obtain ⟨b, b', hb, hb', hactive, hidle⟩ := handleType2_completed (m := m₀) hp hst
        (Nat.lt_of_not_le hlen) hclean
      have heq := congrArg (fun o => o.1.1) (hpair hb hb')
      rw [sessionHandlePacket_withBuf, sessionHandlePacket_withBuf, hb 0 hpos, hb' 0 hpos,
        if_pos h2, if_pos h2] at heq
      exact absurd (hactive.symm.trans (heq.trans hidle)) (by decide)
    · by_contra hshort
      obtain ⟨hlen, hshort⟩ := not_or.mp hshort
      obtain ⟨hvalid, hshort⟩ := not_or.mp hshort
      obtain ⟨hnamed, hclean⟩ := not_or.mp hshort
      obtain ⟨b, b', hb, hb', hnone, hsent⟩ := handleType3_completed (m := m₀) hp hst
        (Bool.eq_true_of_not_eq_false hvalid) (Nat.lt_of_not_le hlen) hnamed hclean
      have heq := congrArg (fun o => o.2.2.2) (hpair hb hb')
      have h2 : byte m.udp.udpRecvBuf 0 ≠ 2 := by
        rw [h3]
        decide
      rw [sessionHandlePacket_withBuf, sessionHandlePacket_withBuf, hb 0 hpos, hb' 0 hpos,
        if_neg h2, if_neg h2, if_pos h3, if_pos h3] at heq
      have hsame := heq.trans hnone
      exact absurd (congrArg List.length hsame) (Nat.ne_of_gt hsent)
  · intro hdec buf h
    by_cases hst : m.wgState = .hsSent
    · exact outcome_settled hp hst hdec h
    · exact outcome_unsent hst h

end Handle

theorem rfcPrims_aeadTag :
    AeadTag rfcPrims fun key nonce aad {_} data => ChaChaPoly.tag key nonce aad data where
  accepts key nonce aad _ data t := ChaChaPoly.aeadOpen_tag key nonce aad data t
  rejects _ _ _ _ _ _ _ _ _ := rfl

/-- In `HS_SENT`, `len` bytes were received into a buffer that now holds `buf`. -/
def inHsSent (m : Machine Script) (buf : Bytes udpRecvBufSize) (len : Nat)
    (h : len ≤ udpRecvBufSize) : Machine Script :=
  { m with
    wgState := .hsSent
    udp :=
      { udpRecvBuf := buf
        udpRecvLen := len
        udpRecvLen_le := h
        udpRecvSrc := .start
        udpRecvReady := true } }

/-- Up to its tag a response is read. -/
theorem sessionHandlePacket_residue_cropped :
    let m := inHsSent (scriptedStart []) (taggedResponse (zero 16)).udpRecvBuf 60 (by decide)
    ∀ buf, SameReceived m.udp buf →
      (sessionHandlePacket scripted (m.withBuf buf)).outcome =
        (sessionHandlePacket scripted m).outcome := by
  have h2 := byte_taggedResponse (zero 16)
  generalize (taggedResponse (zero 16)).udpRecvBuf = response at *
  refine (sessionHandlePacket_residue scripted rfcPrims_aeadTag _).mpr fun _ => ⟨?_, ?_, ?_⟩
  · exact Nat.succ_pos 59
  · exact fun _ => .inl (Nat.le_refl 60)
  · intro h3
    have h3 : byte response 0 = 3 := h3
    rw [h2] at h3
    exact absurd h3 (by decide)

theorem wgState_inHsSent (m : Machine Script) {buf : Bytes udpRecvBufSize} (h2 : byte buf 0 = 2)
    (len : Nat) (h : len ≤ udpRecvBufSize) :
    (sessionHandlePacket scripted (inHsSent m buf len h)).outcome.1.1 =
      if (hsProcessResponse rfcPrims { m.hs with hsRespPacket := slice buf 0 92 }).1 then .active
      else .idle :=
  (sessionHandlePacket_type2 scripted (m := inHsSent m buf len h) rfl h2).1

theorem withBuf_inHsSent (m : Machine Script) (buf buf' : Bytes udpRecvBufSize) {len : Nat}
    (h : len ≤ udpRecvBufSize) :
    (inHsSent m buf len h).withBuf buf' = inHsSent m buf' len h := rfl

/-- The first 44 bytes of a response are not its tag. -/
theorem sameReceived_taggedResponse (m : Machine Script) (tag tag' : Bytes 16)
    (h : 44 ≤ udpRecvBufSize) :
    SameReceived (inHsSent m (taggedResponse tag).udpRecvBuf 44 h).udp
      (taggedResponse tag').udpRecvBuf := by
  have hcopy : ∀ (t : Bytes 16) (i : Nat), i < 44 → byte (taggedResponse t).udpRecvBuf i =
      byte (put (zero udpRecvBufSize) 0 2) i := by
    intro t i hi
    rw [taggedResponse, byte_copyIn, if_neg (by omega)]
  have hsame : ∀ i < 44, byte (taggedResponse tag').udpRecvBuf i =
      byte (taggedResponse tag).udpRecvBuf i := fun i hi =>
    (hcopy tag' i hi).trans (hcopy tag i hi).symm
  generalize (taggedResponse tag).udpRecvBuf = buf at *
  exact hsame

theorem exists_tag_ne (tag : Bytes 16) : ∃ other, other ≠ tag := by
  refine ⟨put tag 0 (byte tag 0 + 1), fun heq => ?_⟩
  have hbyte := congrArg (fun b => byte b 0) heq
  rw [byte_put, if_pos ⟨rfl, by decide⟩] at hbyte
  exact absurd hbyte (by simp)

/-- 44 bytes of a response, its tag left by an earlier datagram: the session begins with that tag
and is torn down with another. -/
theorem sessionHandlePacket_residue_completed :
    let m := inHsSent (scriptedStart [])
      (taggedResponse (openingTag (scriptedStart []).hs)).udpRecvBuf 44 (by decide)
    ¬ ∀ buf, SameReceived m.udp buf →
      (sessionHandlePacket scripted (m.withBuf buf)).outcome =
        (sessionHandlePacket scripted m).outcome := by
  have htype := byte_taggedResponse
  have hverdict := hsProcessResponse_taggedResponse (scriptedStart []).hs
  have hsame := fun tag' => sameReceived_taggedResponse (scriptedStart [])
    (openingTag (scriptedStart []).hs) tag' (by decide)
  obtain ⟨other, hother⟩ := exists_tag_ne (openingTag (scriptedStart []).hs)
  -- Nothing below looks into the start state, the packet or its tag.
  generalize scriptedStart [] = start at *
  generalize taggedResponse = packet at *
  generalize openingTag start.hs = opening at *
  intro m hall
  have hstate := congrArg (fun o => o.1.1) (hall _ (hsame other))
  rw [withBuf_inHsSent] at hstate
  have hactive := (wgState_inHsSent start (htype opening) 44 (by decide)).trans
    (if_pos ((hverdict opening).mpr rfl))
  have hidle := (wgState_inHsSent start (htype other) 44 (by decide)).trans
    (if_neg (mt (hverdict other).mp hother))
  exact absurd (hidle.symm.trans (hstate.trans hactive)) (by decide)

end C64WireGuard
