import C64WireGuard.Uci.Exchange

/-!
# Opening and closing the socket

What `uci_udp_connect` and `net_udp_close` leave behind: a socket that counts as open has the
non-zero handle that the reply to its own `UDP_CONNECT` began with, and a close forgets the handle
whatever comes of it.
-/

namespace C64WireGuard.Uci

open Bytes

variable {δ : Type} {D : Device δ} {s s' : State δ}

/-! ## `UDP_CONNECT` -/

/-- The cells after a connect: a handle and a count of bytes are new. -/
def Reconnected (m m' : UciMem) : Prop :=
  m'.core = { m.core with uciSocketId := m'.uciSocketId, uciRespCount := m'.uciRespCount }

theorem Reconnected.of_core {m m' : UciMem} (h : m'.core = m.core) : Reconnected m m' := by
  have hid : m'.uciSocketId = m.uciSocketId := (congrArg UciMem.uciSocketId h :)
  have hcount : m'.uciRespCount = m.uciRespCount := (congrArg UciMem.uciRespCount h :)
  rw [Reconnected, hid, hcount, h]
  rfl

theorem Reconnected.trans {m₁ m₂ m₃ : UciMem} (h₁ : Reconnected m₁ m₂) (h₂ : Reconnected m₂ m₃) :
    Reconnected m₁ m₃ := by
  unfold Reconnected at *
  rw [h₂, h₁]

theorem eq_nil_or_singleton {bs : List UInt8} (h : bs.length ≤ 1) : bs = [] ∨ ∃ b, bs = [b] := by
  cases bs with
  | nil => exact .inl rfl
  | cons b bs =>
      have hbs : bs = [] := List.eq_nil_of_length_eq_zero (Nat.le_zero.mp (Nat.le_of_succ_le_succ h))
      exact .inr ⟨b, by rw [hbs]⟩

/-- The handle is the first byte of the reply, and not zero when it comes through. -/
theorem readSocketId_spec {c : Bool} (h : (readSocketId D).Returns s c s') :
    Since s (fun es m => Quiet es ∧ Reconnected s.mem m ∧
      (c = false → m.uciSocketId ≠ 0 ∧
        (readsOf .uciRespData es).head? = some m.uciSocketId) ∧
      (c = true → .expired ∈ es ∨ (readsOf .uciRespData es).head? = some 0)) s' := by
  simp only [readSocketId, Prog.returns_bind, Prog.returns_ite, Prog.returns_pure] at h
  obtain ⟨u₁, s₁, hzero, u₂, s₂, hread, u₃, s₃, hdrain, m, s₄, hcells, h⟩ := h
  obtain ⟨hlog₁, hmem₁, -⟩ := store_spec hzero
  obtain ⟨es₂, hes₂, hquiet₂, -, -, hlen, hexp₂, hmem₂⟩ := uciReadRespBytes_spec hread
  obtain ⟨es₃, hes₃, hquiet₃, hcore₃⟩ := drainAckAlways_spec hdrain
  obtain ⟨rfl, rfl⟩ := cells_spec hcells
  rw [hlog₁] at hes₂
  rw [hmem₁] at hmem₂
  have hlog : s₃.log = s.log ++ (es₂ ++ es₃) := by rw [hes₃, hes₂, List.append_assoc]
  have hquiet : Quiet (es₂ ++ es₃) := by simp [hquiet₂, hquiet₃]
  have hrec : Reconnected s.mem s₃.mem := by
    refine Reconnected.trans ?_ (.of_core hcore₃)
    rw [hmem₂]
    generalize readsOf .uciRespData es₂ = bs at hlen ⊢
    obtain rfl | ⟨b, rfl⟩ := eq_nil_or_singleton hlen
    · rfl
    · rfl
  have hid : s₃.mem.uciSocketId = s₂.mem.uciSocketId := (congrArg UciMem.uciSocketId hcore₃ :)
  have hcount : s₃.mem.uciRespCount = s₂.mem.uciRespCount :=
    (congrArg UciMem.uciRespCount hcore₃ :)
  rcases h with ⟨hbad, u₅, s₅, herr, rfl, rfl⟩ | ⟨hgood, rfl, rfl⟩
  · obtain ⟨hlog₅, hmem₅⟩ := setLastError_spec herr
    refine ⟨_, hlog₅.trans hlog, hquiet, by rw [hmem₅]; exact hrec, by simp, fun _ => ?_⟩
    rw [hid, hcount, hmem₂] at hbad
    rw [readsOf_append]
    generalize readsOf .uciRespData es₂ = bs at hlen hbad hexp₂ ⊢
    obtain rfl | ⟨b, rfl⟩ := eq_nil_or_singleton hlen
    · exact Or.inl (List.mem_append_left _ (hexp₂.mp Nat.zero_lt_one))
    · exact Or.inr (congrArg some (hbad.resolve_left Nat.one_ne_zero))
  · rw [not_or] at hgood
    refine ⟨_, hlog, hquiet, hrec, fun _ => ⟨hgood.2, ?_⟩, by simp⟩
    rw [hid, hcount, hmem₂] at hgood
    rw [hid, hmem₂, readsOf_append]
    generalize readsOf .uciRespData es₂ = bs at hlen hgood ⊢
    obtain rfl | ⟨b, rfl⟩ := eq_nil_or_singleton hlen
    · exact absurd rfl hgood.1
    · rfl

/-- The reply to a connect hands out no socket: it carries the error bit, a refusing status line, or
the handle zero. -/
def Refusal (es : List Access) : Prop :=
  (∃ v, verdict es = some v ∧ v &&& uciStatError ≠ 0) ∨ ¬ LineOk (readsOf .uciStatusData es) ∨
    (readsOf .uciRespData es).head? = some 0

/-- **`uci_udp_connect`** pushes one command at most, to the staged destination. When it comes
through, the device took that command without an error and the handle is what its reply began
with. -/
theorem uciUdpConnect_spec {c : Bool} (h : (uciUdpConnect D).Returns s c s') :
    Since s (fun es m =>
      Exchange (connectCommand s.mem.netUdpDest) es ∧ Reconnected s.mem m ∧
      (c = false → pushed es = [connectCommand s.mem.netUdpDest] ∧ ErrorClear es ∧
        m.uciSocketId ≠ 0 ∧ (readsOf .uciRespData es).head? = some m.uciSocketId) ∧
      (c = true → .expired ∈ es ∨ Refusal es)) s' := by
  simp only [uciUdpConnect, Prog.returns_bind, Prog.returns_ite, Prog.returns_pure] at h
  obtain ⟨c₁, s₁, hidle, h⟩ := h
  obtain ⟨es₁, hes₁, hidled⟩ := uciWaitIdle_spec hidle
  rcases h with ⟨rfl, rfl, rfl⟩ | ⟨-, h⟩
  · exact ⟨es₁, hes₁, .silent hidled.still, .of_core hidled.core, by simp,
      fun _ => Or.inl (hidled.expired_iff.mp rfl)⟩
  obtain ⟨u₂, s₂, hbegin, u₃, s₃, hput, m, s₄, hcells, u₄, s₅, hdest, c₆, s₆, hpush, h⟩ := h
  obtain ⟨hlog₂, hmem₂⟩ := sta_spec hbegin
  obtain ⟨hlog₃, hmem₃⟩ := sta_spec hput
  obtain ⟨rfl, rfl⟩ := cells_spec hcells
  obtain ⟨hlog₅, hmem₅⟩ := putEndpoint_writes _ _ _ _ hdest
  obtain ⟨es₆, hes₆, hpushed⟩ := uciPushWait_spec hpush
  have hmem : s₅.mem = s₁.mem := by rw [hmem₅, hmem₃, hmem₂]
  have hdest' : s₃.mem.netUdpDest = s.mem.netUdpDest := by
    rw [hmem₃, hmem₂]
    exact (congrArg UciMem.netUdpDest hidled.core :)
  have hlog : s₆.log = s.log ++ (es₁ ++ commandWrites (connectCommand s.mem.netUdpDest) ++
      .write .uciControl uciCtrlPushCmd :: es₆) := by
    rw [hes₆, hlog₅, hlog₃, hlog₂, hes₁, hdest']
    simp [connectCommand, commandWrites]
  have hcore : s₆.mem.core = s.mem.core := by
    rw [hpushed.core, hmem, hidled.core]
  have hafter : ∀ fs, Quiet fs → Quiet (es₆ ++ fs) := fun fs hfs => by simp [hpushed.quiet, hfs]
  have hfail : ∀ {t : State δ} (fs : List Access), t.log = s₆.log ++ fs → Quiet fs →
      Reconnected s₆.mem t.mem →
      (.expired ∈ es₆ ++ fs ∨ Refusal (es₁ ++ commandWrites (connectCommand s.mem.netUdpDest) ++
        .write .uciControl uciCtrlPushCmd :: (es₆ ++ fs))) →
      Since s (fun es m =>
        Exchange (connectCommand s.mem.netUdpDest) es ∧ Reconnected s.mem m ∧
        (true = false → pushed es = [connectCommand s.mem.netUdpDest] ∧ ErrorClear es ∧
          m.uciSocketId ≠ 0 ∧ (readsOf .uciRespData es).head? = some m.uciSocketId) ∧
        (true = true → .expired ∈ es ∨ Refusal es)) t := by
    intro t fs hlog' hfs hrec hwhy
    refine ⟨_, ?_, .command hidled.still (hafter fs hfs), (Reconnected.of_core hcore).trans hrec,
      by simp, fun _ => hwhy.imp (fun he => ?_) id⟩
    · rw [hlog', hlog]
      simp only [List.append_assoc, List.cons_append]
    · exact List.mem_append_right _ (List.mem_cons_of_mem _ he)
  rcases h with ⟨rfl, rfl, rfl⟩ | ⟨hbusy, c₇, s₇, hcheck, h⟩
  · refine hfail [] (List.append_nil _).symm quiet_nil (.of_core rfl) (Or.inl ?_)
    exact List.mem_append_left _ (hpushed.expired_iff.mp rfl)
  rw [Bool.not_eq_true] at hbusy
  subst hbusy
  obtain ⟨v, hv, hmem₇, hlog₇⟩ := uciCheckErr_spec hcheck
  rcases h with ⟨rfl, u₈, s₈, herr, u₉, s₉, hdrain, rfl, rfl⟩ | ⟨hc₇, h⟩
  · obtain ⟨hlog₈, hmem₈⟩ := setLastError_spec herr
    obtain ⟨es₉, hes₉, hquiet₉, hcore₉⟩ := drainAckAlways_spec hdrain
    refine hfail ([.read .uciStatus v, .write .uciControl uciCtrlClrErr] ++ es₉) ?_ ?_ ?_
      (Or.inr ?_)
    · rw [hes₉, hlog₈, hlog₇, if_pos rfl, List.append_assoc]
    · exact quiet_append.mpr ⟨Calm.quiet (by simp), hquiet₉⟩
    · refine .of_core ?_
      rw [hcore₉, hmem₈, hmem₇]
      rfl
    · exact Or.inl ⟨v, verdict_command hidled.quiet hpushed, fun hzero => by cases hv.mpr hzero⟩
  rw [Bool.not_eq_true] at hc₇
  subst hc₇
  rw [if_neg (by decide)] at hlog₇
  obtain ⟨c₈, s₈, hstaged, h⟩ := h
  obtain ⟨es₈, hes₈, hwaited⟩ := statusWait_spec hstaged
  rcases h with ⟨rfl, rfl, rfl⟩ | ⟨-, c₉, s₉, hstat, m, s₁₀, hcells, h⟩
  · have hexp : .expired ∈ es₆ ++ .read .uciStatus v :: es₈ := by
      simp [hwaited.expired_iff.mp rfl]
    refine hfail (.read .uciStatus v :: es₈) ?_ (by simp [hwaited.quiet]) (.of_core ?_)
      (Or.inl hexp)
    · rw [hes₈, hlog₇, List.append_assoc]
      rfl
    · rw [hwaited.core, hmem₇]
  obtain ⟨es₉, hes₉, hquiet₉, hresp₉, -, hmem₉⟩ := uciDrainStatus_spec hstat
  obtain ⟨rfl, rfl⟩ := cells_spec hcells
  have hlog₉ : s₉.log = s₆.log ++ (.read .uciStatus v :: (es₈ ++ es₉)) := by
    rw [hes₉, hes₈, hlog₇]
    simp only [List.append_assoc, List.cons_append, List.nil_append]
  have hcore₉ : s₉.mem.core = s₆.mem.core := by
    rw [hmem₉, ← hmem₇, ← hwaited.core]
    split
    · rw [core_timedOut, core_drained]
    · rw [core_drained]
  rcases h with ⟨hrefused, u₁₀, s₁₁, herr, c₁₁, s₁₂, hdrain, u₁₂, s₁₃, hack, rfl, rfl⟩ | ⟨-, hid⟩
  · obtain ⟨hlog₁₁, hmem₁₁⟩ := setLastError_spec herr
    obtain ⟨es₁₂, hes₁₂, hquiet₁₂, hstatus₁₂, -, hmem₁₂⟩ := uciDrainResp_spec hdrain
    obtain ⟨hlog₁₃, hmem₁₃⟩ := uciAck_spec hack
    have hline : ¬ LineOk (readsOf .uciStatusData es₉) := by
      rw [← refused_drained s₈.mem, Bool.not_eq_false, ← hrefused, hmem₉]
      split <;> rfl
    refine hfail (.read .uciStatus v :: (es₈ ++ es₉) ++ es₁₂ ++
      [.write .uciControl uciCtrlNextData]) ?_ ?_ (.of_core ?_)
      (Or.inr (Or.inr (Or.inl fun hok => hline ?_)))
    · rw [hlog₁₃, hes₁₂, hlog₁₁, hlog₉]
      simp only [List.append_assoc, List.cons_append]
    · have hack : Quiet [.write .uciControl uciCtrlNextData] := Calm.quiet (by simp)
      simp [hwaited.quiet, hquiet₉, hquiet₁₂, hack]
    · rw [hmem₁₃, hmem₁₂, ← hcore₉]
      have hcore₁₁ : s₁₁.mem.core = s₉.mem.core := by
        rw [hmem₁₁]
        rfl
      split
      · rw [core_timedOut, hcore₁₁]
      · rw [hcore₁₁]
    · simpa [hidled.readsOf_data, hpushed.readsOf_data, hwaited.readsOf_data, hstatus₁₂] using hok
  · obtain ⟨es₁₀, hes₁₀, hquiet₁₀, hrec₁₀, hgood, hbad⟩ := readSocketId_spec hid
    have hrec : Reconnected s.mem s'.mem :=
      (Reconnected.of_core (hcore₉.trans hcore)).trans hrec₁₀
    have hquiet : Quiet (.read .uciStatus v :: (es₈ ++ es₉ ++ es₁₀)) := by
      simp [hwaited.quiet, hquiet₉, hquiet₁₀]
    refine ⟨es₁ ++ commandWrites (connectCommand s.mem.netUdpDest) ++
      .write .uciControl uciCtrlPushCmd :: (es₆ ++ .read .uciStatus v :: (es₈ ++ es₉ ++ es₁₀)),
      ?_, .command hidled.still (hafter _ hquiet), hrec, fun hc =>
        ⟨pushed_command hidled.quiet (hafter _ hquiet) _, ⟨v, ?_, hv.mp rfl⟩, ?_⟩, fun hc => ?_⟩
    · rw [hes₁₀, hlog₉, hlog]
      simp only [List.append_assoc, List.cons_append]
    · exact verdict_command hidled.quiet hpushed
    · obtain ⟨hne, hhead⟩ := hgood hc
      refine ⟨hne, ?_⟩
      simpa [hidled.readsOf_data, hpushed.readsOf_data, hwaited.readsOf_data, hresp₉] using hhead
    · rcases hbad hc with hexp | hzero
      · exact Or.inl (by simp [hexp])
      · refine Or.inr (Or.inr (Or.inr ?_))
        simpa [hidled.readsOf_data, hpushed.readsOf_data, hwaited.readsOf_data, hresp₉] using hzero

/-! ## `SOCKET_CLOSE` -/

/-- `SOCKET_CLOSE` of a handle. -/
def closeCommand (id : UInt8) : List UInt8 := [uciTargetNetwork, uciCmdSocketClose, id]

/-- The cells after a close: there is no socket. -/
def Closed (m m' : UciMem) : Prop :=
  m'.core = { m.core with uciSocketId := 0, uciSocketOpen := 0 }

theorem closeWedged_spec {c : Bool} (h : (netUdpClose.closeWedged).Returns s c s') :
    c = true ∧ s'.log = s.log ∧ Closed s.mem s'.mem := by
  simp only [netUdpClose.closeWedged, Prog.returns_bind, Prog.returns_pure] at h
  obtain ⟨u, s₁, hstore, rfl, rfl⟩ := h
  obtain ⟨hlog, hmem, -⟩ := store_spec hstore
  exact ⟨rfl, hlog, by rw [hmem]; rfl⟩

theorem Closed.of_core {m m₁ m' : UciMem} (h : m₁.core = m.core) (hclosed : Closed m₁ m') :
    Closed m m' := by
  unfold Closed at *
  rw [hclosed, h]

/-- **`net_udp_close`** of an open socket pushes one `SOCKET_CLOSE` at most and forgets the socket;
it comes through only when the device took the command without an error, and the command is pushed
unless a wait gives up. -/
theorem netUdpClose_spec {c : Bool} (hopen : s.mem.uciSocketOpen ≠ 0)
    (h : (netUdpClose D).Returns s c s') :
    Since s (fun es m =>
      Exchange (closeCommand s.mem.uciSocketId) es ∧ Closed s.mem m ∧
      (c = false → pushed es = [closeCommand s.mem.uciSocketId] ∧ ErrorClear es) ∧
      (.expired ∉ es → pushed es = [closeCommand s.mem.uciSocketId])) s' := by
  simp only [netUdpClose, Prog.returns_bind, Prog.returns_ite, Prog.returns_pure] at h
  obtain ⟨m, s₀, hcells, ⟨hzero, -⟩ | ⟨-, c₁, s₁, hidle, h⟩⟩ := h
  · obtain ⟨rfl, rfl⟩ := cells_spec hcells
    exact absurd hzero hopen
  obtain ⟨rfl, rfl⟩ := cells_spec hcells
  obtain ⟨es₁, hes₁, hidled⟩ := uciWaitIdle_spec hidle
  rcases h with ⟨rfl, hwedged⟩ | ⟨-, h⟩
  · obtain ⟨rfl, hlog, hclosed⟩ := closeWedged_spec hwedged
    exact ⟨es₁, hlog.trans hes₁, .silent hidled.still, hclosed.of_core hidled.core, by simp,
      fun hexp => absurd (hidled.expired_iff.mp rfl) hexp⟩
  obtain ⟨u₂, s₂, hbegin, u₃, s₃, hput, m, s₄, hcells, u₅, s₅, hid, c₆, s₆, hpush, h⟩ := h
  obtain ⟨hlog₂, hmem₂⟩ := sta_spec hbegin
  obtain ⟨hlog₃, hmem₃⟩ := sta_spec hput
  obtain ⟨rfl, rfl⟩ := cells_spec hcells
  obtain ⟨hlog₅, hmem₅⟩ := sta_spec hid
  obtain ⟨es₆, hes₆, hpushed⟩ := uciPushWait_spec hpush
  have hmem : s₅.mem = s₁.mem := by rw [hmem₅, hmem₃, hmem₂]
  have hid' : s₃.mem.uciSocketId = s.mem.uciSocketId := by
    rw [hmem₃, hmem₂]
    exact (congrArg UciMem.uciSocketId hidled.core :)
  have hlog : s₆.log = s.log ++ (es₁ ++ commandWrites (closeCommand s.mem.uciSocketId) ++
      .write .uciControl uciCtrlPushCmd :: es₆) := by
    rw [hes₆, hlog₅, hlog₃, hlog₂, hes₁, hid']
    simp [closeCommand, commandWrites]
  have hcore : s₆.mem.core = s.mem.core := by
    rw [hpushed.core, hmem, hidled.core]
  have hafter : ∀ fs, Quiet fs → Quiet (es₆ ++ fs) := fun fs hfs => by simp [hpushed.quiet, hfs]
  -- A close that gives up after the push.
  have hwedge : ∀ {t t' : State δ} (fs : List Access), t.log = s₆.log ++ fs → Quiet fs →
      t.mem.core = s₆.mem.core → (netUdpClose.closeWedged).Returns t c t' →
      Since s (fun es m =>
        Exchange (closeCommand s.mem.uciSocketId) es ∧ Closed s.mem m ∧
        (c = false → pushed es = [closeCommand s.mem.uciSocketId] ∧ ErrorClear es) ∧
        (.expired ∉ es → pushed es = [closeCommand s.mem.uciSocketId])) t' := by
    intro t t' fs hlog' hfs hcore' hwedged
    obtain ⟨rfl, hlog'', hclosed⟩ := closeWedged_spec hwedged
    refine ⟨_, ?_, .command hidled.still (hafter fs hfs), hclosed.of_core (hcore'.trans hcore),
      by simp, fun _ => pushed_command hidled.quiet (hafter fs hfs) _⟩
    rw [hlog'', hlog', hlog]
    simp only [List.append_assoc, List.cons_append]
  rcases h with ⟨-, hwedged⟩ | ⟨hbusy, c₇, s₇, hcheck, c₈, s₈, hstaged, h⟩
  · exact hwedge [] (List.append_nil _).symm quiet_nil rfl hwedged
  rw [Bool.not_eq_true] at hbusy
  subst hbusy
  obtain ⟨v, hv, hmem₇, hlog₇⟩ := uciCheckErr_spec hcheck
  obtain ⟨es₈, hes₈, hwaited⟩ := statusWait_spec hstaged
  have hclr : Quiet (if c₇ then [Access.write .uciControl uciCtrlClrErr] else []) := by
    split
    · exact Calm.quiet (by simp)
    · exact quiet_nil
  generalize (if c₇ then [Access.write .uciControl uciCtrlClrErr] else []) = clr at hlog₇ hclr
  have hlog₈ : s₈.log = s₆.log ++ .read .uciStatus v :: (clr ++ es₈) := by
    rw [hes₈, hlog₇, List.append_assoc]
    rfl
  have hcore₈ : s₈.mem.core = s₆.mem.core := by rw [hwaited.core, hmem₇]
  rcases h with ⟨-, hwedged⟩ | ⟨-, c₉, s₉, hdrain, h⟩
  · exact hwedge _ hlog₈ (by simp [hclr, hwaited.quiet]) hcore₈ hwedged
  obtain ⟨es₉, hes₉, hquiet₉, -, hcore₉, -⟩ := drainAck_spec hdrain
  have hlog₉ : s₉.log = s₆.log ++ .read .uciStatus v :: (clr ++ es₈ ++ es₉) := by
    rw [hes₉, hlog₈, List.append_assoc]
    rfl
  have hquiet : Quiet (.read .uciStatus v :: (clr ++ es₈ ++ es₉)) := by
    simp [hclr, hwaited.quiet, hquiet₉]
  rcases h with ⟨-, hwedged⟩ | ⟨-, u₁₀, s₁₀, hforget, h⟩
  · exact hwedge _ hlog₉ hquiet (hcore₉.trans hcore₈) hwedged
  obtain ⟨hlog₁₀, hmem₁₀, -⟩ := store_spec hforget
  have hclosed : Closed s.mem s₁₀.mem := by
    refine Closed.of_core (hcore₉.trans (hcore₈.trans hcore)) ?_
    rw [hmem₁₀]
    rfl
  have hes : s₁₀.log = s.log ++ (es₁ ++ commandWrites (closeCommand s.mem.uciSocketId) ++
      .write .uciControl uciCtrlPushCmd ::
        (es₆ ++ .read .uciStatus v :: (clr ++ es₈ ++ es₉))) := by
    rw [hlog₁₀, hlog₉, hlog]
    simp only [List.append_assoc, List.cons_append]
  rcases h with ⟨-, u₁₁, s₁₁, herr, rfl, rfl⟩ | ⟨hc₇, rfl, rfl⟩
  · obtain ⟨hlog₁₁, hmem₁₁⟩ := setLastError_spec herr
    exact ⟨_, hlog₁₁.trans hes, .command hidled.still (hafter _ hquiet),
      by rw [hmem₁₁]; exact hclosed, by simp,
      fun _ => pushed_command hidled.quiet (hafter _ hquiet) _⟩
  · rw [Bool.not_eq_true] at hc₇
    subst hc₇
    have hpushes := pushed_command hidled.quiet (hafter _ hquiet) (closeCommand s.mem.uciSocketId)
    exact ⟨_, hes, .command hidled.still (hafter _ hquiet), hclosed, fun _ =>
      ⟨hpushes, v, verdict_command hidled.quiet hpushed, hv.mp rfl⟩, fun _ => hpushes⟩

end C64WireGuard.Uci
