import C64WireGuard.Uci.Delivery
import C64WireGuard.Uci.Schedule

/-!
# Every datagram, once and in order

One `net_poll` takes one reply to `SOCKET_READ` out of the firmware, whole, and leaves the interface
as it found it (`netPoll_delivers`). So polls one after the other take the replies one after the
other: what the program gets is the datagrams that the firmware handed out, none of them twice, none
lost and none out of order (`receive_in_order`).
-/

namespace C64WireGuard.Uci

open Prog Bytes

variable {δ : Type} {D : Device δ} {reply : List UInt8 → List Block → Prop} {spec : δ → Ultimate}
  {s : State δ} {past : List Executed} {u u' : Ultimate} {n : Nat}

/-! ## Between two exchanges -/

/-- The interface between two exchanges. -/
structure Resting (past : List Executed) (u : Ultimate) : Prop where
  idle : u.Idle
  rewound : u.Rewound
  executed : u.executed = past

theorem Resting.moved (h : Resting past u)
    (hmoved : u' = u.after n ∨ Ultimate.Works reply (u.after n) u') : Resting past u' := by
  have hafter : (u.after n).Rewound := h.rewound.after n
  rcases hmoved with rfl | hwork
  · exact ⟨h.idle, hafter, h.executed⟩
  · refine ⟨?_, hwork.rewound hafter, ?_⟩
    · rw [hwork.idle h.idle]
      exact h.idle
    · rw [hwork.idle h.idle]
      exact h.executed

/-- No read makes it look otherwise. -/
theorem Resting.shown (h : Resting past u)
    (hmoved : u' = u.after n ∨ Ultimate.Works reply (u.after n) u') {b : StatusBits}
    (htorn : StatusBits.Torn (u.after n).status u'.status b) : IdleStatus b.byte := by
  have hbits : ∀ {w : Ultimate}, Resting past w →
      w.status.state1 = false ∧ w.status.state0 = false ∧ w.status.cmdBusy = false := by
    intro w hw
    simp [Ultimate.status, Ultimate.staged, hw.idle.1, hw.idle.2]
  obtain ⟨hold₁, hold₀, holdBusy⟩ := hbits (h.moved (Or.inl rfl : u.after n = u.after n ∨
    Ultimate.Works reply (u.after n) (u.after n)))
  obtain ⟨hnew₁, hnew₀, hnewBusy⟩ := hbits (h.moved hmoved)
  refine (StatusBits.byte_idle b).mpr ⟨?_, ?_, ?_⟩
  · exact htorn.state1.elim (fun hb => hb.trans hold₁) fun hb => hb.trans hnew₁
  · exact htorn.state0.elim (fun hb => hb.trans hold₀) fun hb => hb.trans hnew₀
  · exact htorn.cmdBusy.elim (fun hb => hb.trans holdBusy) fun hb => hb.trans hnewBusy

/-- A status that is read between two exchanges. -/
theorem lda_resting (hD : Implements D reply spec) (hs : D.Punctual spec s.dev)
    (h : Resting past (spec s.dev)) :
    Achieves (lda D .uciStatus) s fun v s' => IdleStatus v ∧
      (v &&& uciStatError = 0 → (spec s.dev).error = false) ∧
      ((spec s.dev).error = false → (spec s'.dev).error = false) ∧ Resting past (spec s'.dev) ∧
      s'.mem = s.mem ∧ D.Punctual spec s'.dev := by
  refine (lda_achieves _ s).imp fun v s' _ ⟨hnext, hmem⟩ => ?_
  have hstep := hD.step hnext
  obtain ⟨n, b, hmoved, htorn, rfl⟩ := hstep.torn
  exact ⟨h.shown hmoved htorn, hstep.status_error.mp, moved_error hmoved, h.moved hmoved, hmem,
    hs.next hnext⟩

/-- A command has been begun with the bytes `bs`. -/
structure Opened (past : List Executed) (bs : List UInt8) (u : Ultimate) : Prop where
  idle : u.Idle
  command : u.command = bs
  executed : u.executed = past
  error : u.error = false

theorem Opened.moved {bs : List UInt8} (h : Opened past bs u)
    (hmoved : u' = u.after n ∨ Ultimate.Works reply (u.after n) u') : Opened past bs u' := by
  rcases hmoved with rfl | hwork
  · exact ⟨h.idle, h.command, h.executed, h.error⟩
  · rw [hwork.idle h.idle]
    exact ⟨h.idle, h.command, h.executed, h.error⟩

theorem Resting.opened (h : Resting past u) (herror : u.error = false) : Opened past [] u :=
  ⟨h.idle, h.rewound.command h.idle.2, h.executed, herror⟩

/-- `uci_wait_idle` lets the next command in at once. -/
theorem uciWaitIdle_achieves (hD : Implements D reply spec) (hs : D.Punctual spec s.dev)
    (h : Resting past (spec s.dev)) :
    Achieves (uciWaitIdle D) s fun c s' => c = false ∧ Opened past [] (spec s'.dev) ∧
      s'.mem = s.mem ∧ D.Punctual spec s'.dev := by
  have hwait := boundedWait_at_once (D := D) (s := s) uciWaitIdleBudgetTenths (idlePoll D) (Q := fun v t => (v &&& uciStatError = 0 → (spec t.dev).error = false) ∧
      Resting past (spec t.dev) ∧ t.mem = s.mem ∧ D.Punctual spec t.dev) fun v t htod => ?_
  · refine hwait.bind fun o s₁ ⟨v, ho, herror, h₁, hmem₁, hs₁⟩ => ?_
    subst ho
    refine .ite (fun hv => .pure _ ⟨rfl, h₁.opened (herror hv), hmem₁, hs₁⟩) fun _ => ?_
    refine (sta_achieves _ _ s₁).bind fun w s₂ ⟨hnext, hmem₂⟩ => .pure _ ?_
    obtain ⟨n, u₁, hmoved, hwrite⟩ := hD.step hnext
    have h₂ := h₁.moved hmoved
    refine ⟨rfl, ?_, hmem₂.trans hmem₁, hs₁.next hnext⟩
    rw [hwrite]
    exact ⟨h₂.idle, h₂.rewound.command h₂.idle.2, h₂.executed, rfl⟩
  · obtain ⟨ht, hs', hmem⟩ := readTenths_keeps hD (fun _ _ _ h hmoved => h.moved hmoved) htod h hs
    refine (lda_resting hD hs' ht).bind fun v t₁ ⟨hv, herror, hkeep, ht₁, hmem₁, hs₁⟩ => ?_
    refine .ite (fun _ => ?_) fun hnot => absurd hv hnot
    refine (lda_resting hD hs₁ ht₁).bind fun w t₂ ⟨hw, _, hkeep', ht₂, hmem₂, hs₂⟩ => ?_
    refine .ite (fun _ => .pure _ ⟨v, rfl, fun hclear => hkeep' (hkeep (herror hclear)), ht₂, ?_, hs₂⟩)
      fun hnot => absurd hw hnot
    rw [hmem₂, hmem₁, hmem]

/-- A byte of the command. -/
theorem uciPutByte_achieves (hD : Implements D reply spec) (hs : D.Punctual spec s.dev)
    {bs : List UInt8} (h : Opened past bs (spec s.dev)) (b : UInt8) :
    Achieves (uciPutByte D b) s fun _ s' => Opened past (bs ++ [b]) (spec s'.dev) ∧
      s'.mem = s.mem ∧ D.Punctual spec s'.dev := by
  refine (sta_achieves _ _ s).imp fun _ s' _ ⟨hnext, hmem⟩ => ⟨?_, hmem, hs.next hnext⟩
  obtain ⟨n, u₁, hmoved, hwrite⟩ := hD.step hnext
  have h₁ := h.moved hmoved
  rw [hwrite]
  exact ⟨h₁.idle, congrArg (· ++ [b]) h₁.command, h₁.executed, h₁.error⟩

/-- `uci_push_wait`: the command is run, and the reply is on its way. -/
theorem uciPushWait_achieves (hD : Implements D reply spec) (hs : D.Punctual spec s.dev)
    {cmd : List UInt8} (hreply : ∀ blocks, reply cmd blocks → ∃ payload, Carries payload blocks)
    (h : Opened past cmd (spec s.dev)) :
    Achieves (uciPushWait D) s fun c s' => c = false ∧ Replied past cmd (spec s'.dev) ∧
      s'.mem = s.mem ∧ D.Punctual spec s'.dev := by
  refine (sta_achieves _ _ s).bind fun _ s₁ ⟨hnext, hmem⟩ => ?_
  obtain ⟨n, u₁, hmoved, hwrite⟩ := hD.step hnext
  have h₁ := h.moved hmoved
  have hpush : spec s₁.dev = u₁.push := hwrite
  have hpushed : Pushed past cmd (spec s₁.dev) := by
    rw [hpush, Ultimate.push, if_pos h₁.idle]
    exact ⟨rfl, rfl, h₁.command, h₁.executed, h₁.error⟩
  have hawaits : Awaits reply _ (Pushed past cmd) (Replied past cmd) _ := awaits_accept hreply
  have hwait := statusWait_achieves hawaits hD (s := s₁) (fun d hd => hd.acceptTenths d .refl) (fun d hd => ?_)
    (hs.next hnext) (Or.inr hpushed)
  · refine hwait.imp ?_
    intro c s' _ hwaited
    obtain ⟨hc, hreplied, hmem', hs'⟩ := hwaited
    exact ⟨hc, hreplied, hmem'.trans hmem, hs'⟩
  · refine Subrelation.accessible ?_ (hd.accepts d .refl)
    intro d' d'' hlooking
    exact ⟨hlooking.1.busy, hlooking.2⟩

/-- `uci_check_err` finds no error. -/
theorem uciCheckErr_achieves (hD : Implements D reply spec) (hs : D.Punctual spec s.dev)
    {cmd : List UInt8} (h : Replied past cmd (spec s.dev)) :
    Achieves (uciCheckErr D) s fun c s' => c = false ∧ Replied past cmd (spec s'.dev) ∧
      s'.mem = s.mem ∧ D.Punctual spec s'.dev := by
  refine (lda_achieves _ s).bind fun v s₁ ⟨hnext, hmem⟩ => ?_
  have hstep := hD.step hnext
  refine .ite (fun _ => .pure _ ?_) fun hnot => absurd (hstep.status_error.mpr h.1) hnot
  obtain ⟨n, hmoved⟩ := hstep.moved (poll_status v)
  exact ⟨rfl, h.moved hmoved, hmem, hs.next hnext⟩

/-! ## The end of an exchange -/

theorem Presented.drained (h : Presented past [] u) : u.data = [] ∧ u.todo = [] := by
  obtain ⟨hdata, htodo⟩ := List.append_eq_nil_iff.mp h.left.symm
  refine ⟨hdata, List.eq_nil_iff_forall_not_mem.mpr fun b hb => h.filled b hb ?_⟩
  exact List.flatMap_eq_nil_iff.mp htodo b hb

theorem Presented.sound (h : Presented past [] u) : u.Sound where
  busy hbusy := Bool.noConfusion (h.accepted.symm.trans hbusy)
  queues hnot := Bool.noConfusion (hnot.symm.trans h.staged)

/-- `uci_drain_resp` finds nothing more. -/
theorem uciDrainResp_achieves (hD : Implements D reply spec) (hs : D.Punctual spec s.dev)
    (h : Presented past [] (spec s.dev)) :
    Achieves (uciDrainResp D) s fun _ s' => Presented past [] (spec s'.dev) ∧
      D.Punctual spec s'.dev := by
  have hwait := boundedWait_at_once (D := D) (s := s) uciWaitIdleBudgetTenths
    (drainPoll D uciStatDataAv .uciRespData fun _ m => m)
    (Q := fun _ t => Presented past [] (spec t.dev) ∧ D.Punctual spec t.dev) fun v t htod => ?_
  · refine hwait.bind fun o s₁ ⟨u, ho, hQ⟩ => ?_
    subst ho
    exact .pure _ hQ
  · obtain ⟨ht, hs', -⟩ := readTenths_keeps hD (fun _ _ _ h hmoved => (h.moved hmoved).1) htod h hs
    refine (lda_presented hD hs' ht).bind fun w t₁ ⟨hw, _, hs₁, h₁, _⟩ =>
      .ite (fun _ => .pure _ ⟨(), rfl, h₁, hs₁⟩) fun hav => ?_
    rw [← settled_dataAv, hw] at hav
    exact absurd ht.drained.1 (ht.bits.2.2.mp ((settledBits_dataAv _).mp hav))

/-- A byte of the status line. -/
theorem lda_line (hD : Implements D reply spec) (hs : D.Punctual spec s.dev)
    (h : Presented past [] (spec s.dev)) (hline : (spec s.dev).line ≠ []) :
    Achieves (lda D .uciStatusData) s fun _ s' => Presented past [] (spec s'.dev) ∧
      D.Punctual spec s'.dev ∧ (spec s'.dev).line.length < (spec s.dev).line.length ∧
      (spec s.dev).clock ≤ (spec s'.dev).clock := by
  refine (lda_achieves _ s).imp fun v s' _ ⟨hnext, _⟩ => ?_
  obtain ⟨n, u₁, hmoved, -, hread⟩ := hD.step hnext
  obtain ⟨h₁, -, hline₁, -, -⟩ := h.moved hmoved
  have htaken : (u₁.read .uciStatusData).2 = { u₁ with line := u₁.line.tail } := by
    simp [Ultimate.read, h₁.staged]
  have hlength := List.length_pos_iff.mpr hline
  have hclock : (spec s.dev).clock ≤ u₁.clock := Ultimate.Moved.clock_le ⟨n, hmoved⟩
  refine ⟨?_, hs.next hnext, ?_, ?_⟩
  · rw [hread, htaken]
    exact ⟨h₁.accepted, h₁.asked, h₁.state, h₁.filled, h₁.left, h₁.executed⟩
  · rw [hread, htaken, hline₁]
    show (spec s.dev).line.tail.length < (spec s.dev).line.length
    rw [List.length_tail]
    omega
  · rw [hread, htaken]
    exact hclock

/-- `uci_drain_status`, whether it comes through or gives up. -/
theorem uciDrainStatus_achieves (hD : Implements D reply spec) (hs : D.Punctual spec s.dev)
    (h : Presented past [] (spec s.dev)) :
    Achieves (uciDrainStatus D) s fun _ s' => Presented past [] (spec s'.dev) ∧
      D.Punctual spec s'.dev := by
  refine (store_achieves _ s).bind fun _ s₀ ⟨hdev₀, _⟩ => ?_
  have hwf : WellFounded (InvImage (· < ·) fun t : State δ => (spec t.dev).line.length) :=
    InvImage.wf _ Nat.lt_wfRel.wf
  -- The line that is there only gets shorter.
  have hkeeps : ∀ line n u u', (Presented past [] u ∧ u.line = line) →
      (u' = u.after n ∨ Ultimate.Works reply (u.after n) u') →
      Presented past [] u' ∧ u'.line = line := by
    intro line n u u' ⟨hu, hline⟩ hmoved
    obtain ⟨hu', -, hline', -⟩ := hu.moved hmoved
    exact ⟨hu', hline'.trans hline⟩
  have hwait := boundedWait_achieves hD (s := s₀) uciWaitIdleBudgetTenths
    (drainPoll D uciStatStatAv .uciStatusData takeStatus)
    (J := fun t => Presented past [] (spec t.dev) ∧ D.Punctual spec t.dev)
    (Q := fun _ t => Presented past [] (spec t.dev) ∧ D.Punctual spec t.dev)
    ⟨hdev₀ ▸ h, hdev₀ ▸ hs⟩ (fun t v t' ht htod => ?_) ?_ fun t _ => hwf.apply t
  · refine hwait.bind fun o s₁ ho => ?_
    cases o with
    | some u =>
      refine (store_achieves _ s₁).bind fun _ s₂ ⟨hdev₂, _⟩ => .pure _ ?_
      exact hdev₂ ▸ ho.2 u rfl
    | none =>
      obtain ⟨-, -, -, -, -, t, ht, hgive⟩ := ho.1 rfl
      have hdev : s₁.dev = t.dev := by
        obtain ⟨-, rfl⟩ := Prog.returns_act.mp hgive
        rfl
      refine (waitTimeout_achieves s₁).bind fun c s₂ ⟨_, hdev₂⟩ => ?_
      refine (store_achieves _ s₂).bind fun _ s₃ ⟨hdev₃, _⟩ => .pure _ ?_
      rw [hdev₃, hdev₂, hdev]
      exact ht
  · obtain ⟨⟨ht', -⟩, hs', -⟩ := readTenths_keeps hD (hkeeps _) htod ⟨ht.1, rfl⟩ ht.2
    exact ⟨ht', hs'⟩
  · intro t ⟨ht, hpunctual⟩
    refine (lda_achieves _ t).bind fun v t₁ ⟨hnext, _⟩ => ?_
    have hstep := hD.step hnext
    obtain ⟨n₁, hmoved₁⟩ := hstep.moved (poll_status v)
    obtain ⟨ht₁, -, hline₁, -⟩ := ht.moved hmoved₁
    have hs₁ := hpunctual.next hnext
    refine .ite (fun _ => .pure _ ⟨fun hnone => ?_, fun _ _ => ⟨ht₁, hs₁⟩⟩) fun hav => ?_
    · cases hnone
    obtain ⟨hstaged, hline⟩ := hstep.line_announced ht.sound hav
    refine (lda_line hD hs₁ ht₁ hline).bind fun b t₂ ⟨ht₂, hs₂, hshorter, hclock⟩ => ?_
    refine (store_achieves _ t₂).bind fun _ t₃ ⟨hdev₃, _⟩ => .pure _ ⟨fun _ => ⟨?_, ?_, ?_⟩, ?_⟩
    · exact hdev₃ ▸ ⟨ht₂, hs₂⟩
    · rw [hdev₃]
      exact (Ultimate.Moved.clock_le ⟨n₁, hmoved₁⟩).trans hclock
    · intro w t₄ htod
      obtain ⟨⟨-, hline₄⟩, -, -⟩ := readTenths_keeps hD (hkeeps _) htod
        ⟨hdev₃ ▸ ht₂, rfl⟩ (hdev₃ ▸ hs₂)
      show (spec t₄.dev).line.length < (spec t.dev).line.length
      rw [hline₄, hdev₃, ← hline₁]
      exact hshorter
    · intro _ hnone
      cases hnone

/-- The drains and the ack: the interface is idle. -/
theorem drainAckAlways_achieves (hD : Implements D reply spec) (hs : D.Punctual spec s.dev)
    (h : Presented past [] (spec s.dev)) :
    Achieves (drainAckAlways D) s fun _ s' => (spec s'.dev).Idle ∧ (spec s'.dev).executed = past ∧
      s'.mem.core = s.mem.core ∧ D.Punctual spec s'.dev := by
  have hall : Achieves (drainAckAlways D) s fun _ s' => (spec s'.dev).Idle ∧
      (spec s'.dev).executed = past ∧ D.Punctual spec s'.dev := by
    refine (uciDrainResp_achieves hD hs h).bind fun _ s₁ ⟨h₁, hs₁⟩ => ?_
    refine (uciDrainStatus_achieves hD hs₁ h₁).bind fun _ s₂ ⟨h₂, hs₂⟩ => ?_
    refine (sta_achieves _ _ s₂).imp fun _ s₃ _ ⟨hnext, _⟩ => ?_
    obtain ⟨n, u₁, hmoved, hwrite⟩ := hD.step hnext
    obtain ⟨h₃, -, -, htodo, -⟩ := h₂.moved hmoved
    have hlast : u₁.state = .dataLast := by
      rw [h₃.state, h₃.drained.2]
      rfl
    have hidle : spec s₃.dev = { u₁ with state := .idle, data := [], line := [] } := by
      rw [hwrite]
      show u₁.nextData = _
      simp [Ultimate.nextData, hlast]
    rw [hidle]
    exact ⟨⟨rfl, h₃.accepted⟩, h₃.executed, hs₂.next hnext⟩
  refine hall.imp ?_
  intro _ s' hret hdrained
  obtain ⟨hidle, hexecuted, hs'⟩ := hdrained
  obtain ⟨es, -, -, hcore⟩ := drainAckAlways_spec hret
  exact ⟨hidle, hexecuted, hcore, hs'⟩

/-! ## One poll -/

/-- What a poll leaves that was answered by `payload`, or by no datagram when that is empty. -/
def Brought (buf : Nat) (payload : List UInt8) (m m' : UciMem) : Prop :=
  if payload = [] then m'.udpRecvReady = m.udpRecvReady
  else m'.udpRecvReady = 1 ∧ m'.udpRecvLen = payload.length ∧
    ramBytes m'.ram buf payload.length = payload

/-- From the header on. -/
theorem hdrDone_achieves (hD : Implements D reply spec) (hs : D.Punctual spec s.dev) {buf : Nat}
    {payload : List UInt8}
    (hannounces : Announces (byte s.mem.uciReadHdr 0) (byte s.mem.uciReadHdr 1) payload.length)
    (h : Presented past payload (spec s.dev)) :
    Achieves (hdrDone D buf) s fun c s' => c = false ∧ (spec s'.dev).Idle ∧
      (spec s'.dev).executed = past ∧ Brought buf payload s.mem s'.mem ∧ D.Punctual spec s'.dev := by
  -- A reply without a datagram is drained.
  have hnothing : ∀ {t : State δ}, payload = [] → t.mem.udpRecvReady = s.mem.udpRecvReady →
      D.Punctual spec t.dev → Presented past payload (spec t.dev) →
      Achieves (drainAckAlways D >>= fun _ => Pure.pure false) t fun c s' => c = false ∧
        (spec s'.dev).Idle ∧ (spec s'.dev).executed = past ∧ Brought buf payload s.mem s'.mem ∧
        D.Punctual spec s'.dev := by
    intro t hnil hready ht hpresented
    subst hnil
    refine (drainAckAlways_achieves hD ht hpresented).bind fun _ s₁ ⟨hidle, hexecuted, hcore, hs₁⟩ =>
      .pure _ ⟨rfl, hidle, hexecuted, ?_, hs₁⟩
    rw [Brought, if_pos rfl, ready_of_core hcore, hready]
  obtain ⟨hmax, hlen⟩ := hannounces
  refine (cells_achieves s).bind fun m s₀ ⟨hm, hs₀⟩ => ?_
  subst hm
  subst hs₀
  refine .ite (fun hnone => ?_) fun hsome => ?_
  · rw [if_pos hnone] at hlen
    exact hnothing (List.length_eq_zero_iff.mp hlen) rfl hs h
  rw [if_neg hsome] at hlen
  have hhdr : hdrLen s.mem.uciReadHdr = payload.length := hlen.symm
  refine .ite (fun hlong => absurd hmax (by omega)) fun _ => ?_
  refine (store_achieves _ s).bind fun _ s₁ ⟨hdev₁, hmem₁⟩ => ?_
  refine (cells_achieves s₁).bind fun m s₂ ⟨hm, hs₂⟩ => ?_
  subst hm
  subst hs₂
  have hs₁ : D.Punctual spec s₁.dev := hdev₁ ▸ hs
  have h₁ : Presented past payload (spec s₁.dev) := hdev₁ ▸ h
  have hrem : s₁.mem.uciPollRem = payload.length := by rw [hmem₁, hhdr]
  have hrecv : s₁.mem.udpRecvLen = payload.length := by rw [hmem₁, hhdr]
  refine .ite (fun hzero => ?_) fun hpos => ?_
  · exact hnothing (List.length_eq_zero_iff.mp (hrem.symm.trans hzero)) (by rw [hmem₁]) hs₁ h₁
  have hfill : Filling buf payload.length s₁.mem s₁.mem ⟨buf, 0⟩ [] :=
    ⟨.of_core rfl, by simp, rfl, (Nat.zero_add _).trans hrem, rfl, rfl, rfl⟩
  refine (byteLoops_achieve hD hmax ⟨hs₁, Or.inl h₁, hfill, rfl⟩).bind fun c s₂ ⟨hc, o, h₂⟩ => ?_
  subst hc
  refine .ite (fun hcontra => Bool.noConfusion hcontra) fun _ => ?_
  refine (drainAckAlways_achieves hD h₂.punctual h₂.coming.presented).bind
    fun _ s₃ ⟨hidle, hexecuted, hcore, hs₃⟩ => ?_
  refine (store_achieves _ s₃).bind fun _ s₄ ⟨hdev₄, hmem₄⟩ => .pure _
    ⟨rfl, hdev₄ ▸ hidle, hdev₄ ▸ hexecuted, ?_, hdev₄ ▸ hs₃⟩
  have hne : payload ≠ [] := fun hnil => hpos (hrem.trans (congrArg List.length hnil))
  have hram : s₃.mem.ram = s₂.mem.ram := (congrArg UciMem.ram hcore :)
  have hrecv₃ : s₃.mem.udpRecvLen = s₂.mem.udpRecvLen := (congrArg UciMem.udpRecvLen hcore :)
  rw [Brought, if_neg hne, hmem₄]
  refine ⟨rfl, ?_, ?_⟩
  · exact hrecv₃.trans (h₂.filling.len.trans hrecv)
  · show ramBytes s₃.mem.ram buf payload.length = payload
    rw [hram]
    exact h₂.filling.stored

/-- **One poll takes one reply**, whole, and the interface is ready for the next exchange. -/
theorem netPoll_delivers (hD : Implements D reply spec) (hs : D.Punctual spec s.dev) {buf : Nat}
    (hopen : s.mem.uciSocketOpen ≠ 0) (hready : s.mem.udpRecvReady = 0)
    (hreply : ∀ blocks, reply (readCommand s.mem.uciSocketId) blocks →
      ∃ payload, Carries payload blocks)
    (h : Resting past (spec s.dev)) :
    Achieves (netPoll D buf) s fun c s' => c = false ∧ ∃ payload blocks, Carries payload blocks ∧
      Resting (past ++ [(readCommand s.mem.uciSocketId, blocks)]) (spec s'.dev) ∧
      Brought buf payload s.mem s'.mem ∧ Kept buf s.mem s'.mem ∧ D.Punctual spec s'.dev := by
  have hpoll : Achieves (netPoll D buf) s fun c s' => c = false ∧ ∃ payload blocks,
      Carries payload blocks ∧ (spec s'.dev).Idle ∧
      (spec s'.dev).executed = past ++ [(readCommand s.mem.uciSocketId, blocks)] ∧
      Brought buf payload s.mem s'.mem ∧ D.Punctual spec s'.dev := by
    refine (cells_achieves s).bind fun m s₀ ⟨hm, hs₀⟩ => ?_
    subst hm
    subst hs₀
    refine .ite (fun hclosed => absurd hclosed hopen) fun _ => ?_
    refine (cells_achieves s).bind fun m s₀ ⟨hm, hs₀⟩ => ?_
    subst hm
    subst hs₀
    refine .ite (fun hwaiting => absurd hready hwaiting) fun _ => ?_
    refine (uciWaitIdle_achieves hD hs h).bind fun c s₁ ⟨hc, h₁, hmem₁, hs₁⟩ => ?_
    subst hc
    refine .ite (fun hcontra => Bool.noConfusion hcontra) fun _ => ?_
    -- The bytes of the command.
    refine (uciPutByte_achieves hD hs₁ h₁ _).bind fun _ s₂ ⟨h₂, hmem₂, hs₂⟩ => ?_
    refine (uciPutByte_achieves hD hs₂ h₂ _).bind fun _ s₃ ⟨h₃, hmem₃, hs₃⟩ => ?_
    refine (cells_achieves s₃).bind fun m s₀ ⟨hm, hs₀⟩ => ?_
    subst hm
    subst hs₀
    refine (uciPutByte_achieves hD hs₃ h₃ _).bind fun _ s₄ ⟨h₄, hmem₄, hs₄⟩ => ?_
    refine (uciPutByte_achieves hD hs₄ h₄ _).bind fun _ s₅ ⟨h₅, hmem₅, hs₅⟩ => ?_
    refine (uciPutByte_achieves hD hs₅ h₅ _).bind fun _ s₆ ⟨h₆, hmem₆, hs₆⟩ => ?_
    have hkept : s₃.mem = s.mem := hmem₃.trans (hmem₂.trans hmem₁)
    have hcmd : Opened past (readCommand s.mem.uciSocketId) (spec s₆.dev) := hkept ▸ h₆
    -- The exchange.
    refine (uciPushWait_achieves hD hs₆ hreply hcmd).bind fun c s₇ ⟨hc, h₇, hmem₇, hs₇⟩ => ?_
    subst hc
    refine .ite (fun hcontra => Bool.noConfusion hcontra) fun _ => ?_
    refine (uciCheckErr_achieves hD hs₇ h₇).bind fun c s₈ ⟨hc, h₈, hmem₈, hs₈⟩ => ?_
    subst hc
    refine .ite (fun hcontra => Bool.noConfusion hcontra) fun _ => ?_
    obtain ⟨-, blocks, b₀, b₁, payload, hconf, hfresh⟩ := h₈
    refine (uciWaitReplyStaged_achieves hD hs₈ hfresh).bind
      fun c s₉ ⟨hc, ⟨h₉, hlen₉⟩, hmem₉, hs₉⟩ => ?_
    subst hc
    refine .ite (fun hcontra => Bool.noConfusion hcontra) fun _ => ?_
    refine (hdrLoop_achieves hD hs₉ h₉ hlen₉).bind fun c s₁₀ ⟨hc, hs₁₀, h₁₀, hmem₁₀⟩ => ?_
    subst hc
    refine .ite (fun _ => ?_) fun hcontra => absurd rfl hcontra
    have hmem : s₉.mem = s.mem := by
      rw [hmem₉, hmem₈, hmem₇, hmem₆, hmem₅, hmem₄, hkept]
    have hready₁₀ : s₁₀.mem.udpRecvReady = s.mem.udpRecvReady := by rw [hmem₁₀, hmem]
    have hannounces : Announces (byte s₁₀.mem.uciReadHdr 0) (byte s₁₀.mem.uciReadHdr 1)
        payload.length := by
      rw [hmem₁₀]
      simpa using hconf.announces
    refine (hdrDone_achieves hD hs₁₀ hannounces h₁₀).imp
      fun c s' _ ⟨hc, hidle, hexecuted, hbrought, hs'⟩ =>
        ⟨hc, payload, blocks, ⟨b₀, b₁, hconf⟩, hidle, hexecuted, ?_, hs'⟩
    rwa [Brought, hready₁₀] at hbrought
  refine hpoll.imp fun c s' hret ⟨hc, payload, blocks, hcarries, hidle, hexecuted, hbrought, hs'⟩ => ?_
  obtain ⟨es, -, hsees, hpath⟩ := calls_gated (.call .start (.netPoll buf) hret)
  have hagrees := agrees_of_path hD h.rewound hsees hpath
  obtain ⟨fs, -, -, hkept, -, -⟩ := netPoll_spec hret
  exact ⟨hc, payload, blocks, hcarries, ⟨hidle, hagrees.admits, hexecuted⟩, hbrought, hkept, hs'⟩

/-! ## Poll after poll -/

/-- `n` polls of the receive loop. A datagram that has come is taken, and the flag cleared as
`session_handle_packet` does. -/
def receive (D : Device δ) (buf : Nat) : Nat → Prog (State δ) (List (List UInt8))
  | 0 => Pure.pure []
  | n + 1 => do
    let _ ← netPoll D buf
    let m ← cells
    if m.udpRecvReady = 0 then receive D buf n
    else do
      store fun m => { m with udpRecvReady := 0 }
      let rest ← receive D buf n
      Pure.pure (ramBytes m.ram buf m.udpRecvLen :: rest)

/-- **Every datagram, once and in order**: `n` polls take `n` replies, and what the program gets is
the datagrams in them. -/
theorem receive_in_order (hD : Implements D reply spec) {id : UInt8}
    (hreply : ∀ blocks, reply (readCommand id) blocks → ∃ payload, Carries payload blocks)
    {buf : Nat} (n : Nat) (hs : D.Punctual spec s.dev) (hopen : s.mem.uciSocketOpen ≠ 0)
    (hid : s.mem.uciSocketId = id) (hready : s.mem.udpRecvReady = 0)
    (h : Resting past (spec s.dev)) :
    Achieves (receive D buf n) s fun got s' => ∃ replies : List (List UInt8 × List Block),
      replies.length = n ∧ (∀ x ∈ replies, Carries x.1 x.2) ∧
      got = (replies.map Prod.fst).filter (· ≠ []) ∧
      Resting (past ++ replies.map fun x => (readCommand id, x.2)) (spec s'.dev) := by
  induction n generalizing s past with
  | zero => exact .pure _ ⟨[], rfl, by simp, rfl, by simpa using h⟩
  | succ n ih =>
    have hpoll := @netPoll_delivers _ _ _ _ _ _ hD hs buf hopen hready (by rwa [hid]) h
    rw [hid] at hpoll
    refine hpoll.bind fun c s₁
      ⟨_, payload, blocks, hcarries, h₁, hbrought, hkept, hs₁⟩ => ?_
    have hopen₁ : s₁.mem.uciSocketOpen = s.mem.uciSocketOpen :=
      (congrArg UciMem.uciSocketOpen hkept.others :)
    have hid₁ : s₁.mem.uciSocketId = s.mem.uciSocketId :=
      (congrArg UciMem.uciSocketId hkept.others :)
    -- The polls that are left.
    have hrest : ∀ {t : State δ}, t.dev = s₁.dev → t.mem.uciSocketOpen = s₁.mem.uciSocketOpen →
        t.mem.uciSocketId = s₁.mem.uciSocketId → t.mem.udpRecvReady = 0 →
        Achieves (receive D buf n) t fun got s' => ∃ replies : List (List UInt8 × List Block),
          replies.length = n + 1 ∧ (∀ x ∈ replies, Carries x.1 x.2) ∧
          (if payload = [] then got else payload :: got) =
            (replies.map Prod.fst).filter (· ≠ []) ∧
          Resting (past ++ replies.map fun x => (readCommand id, x.2)) (spec s'.dev) := by
      intro t hdev hopen' hid' hready'
      refine (ih (s := t) (hdev ▸ hs₁) ?_ (hid'.trans (hid₁.trans hid)) hready' (hdev ▸ h₁)).imp
        fun got s' _ ⟨replies, hlen, hall, hgot, hend⟩ => ?_
      · rw [hopen', hopen₁]
        exact hopen
      · refine ⟨(payload, blocks) :: replies, congrArg (· + 1) hlen, ?_, ?_, ?_⟩
        · intro x hx
          rcases List.mem_cons.mp hx with rfl | hx
          · exact hcarries
          · exact hall x hx
        · by_cases hnil : payload = [] <;> simp [hnil, hgot]
        · simpa using hend
    refine (cells_achieves s₁).bind fun m s₂ ⟨hm, hs₂⟩ => ?_
    subst hm
    subst hs₂
    by_cases hnil : payload = []
    · rw [Brought, if_pos hnil, hready] at hbrought
      refine .ite (fun _ => ?_) fun hset => absurd hbrought hset
      simpa [hnil] using hrest rfl rfl rfl hbrought
    · rw [Brought, if_neg hnil] at hbrought
      obtain ⟨hone, hlen, hram⟩ := hbrought
      refine .ite (fun hzero => ?_) fun _ => ?_
      · rw [hone] at hzero
        exact absurd hzero (by decide)
      refine (store_achieves _ s₁).bind fun _ s₂ ⟨hdev₂, hmem₂⟩ => ?_
      refine (hrest hdev₂ (by rw [hmem₂]) (by rw [hmem₂]) (by rw [hmem₂])).bind fun got s₃ hgot => ?_
      rw [if_neg hnil] at hgot
      rw [hlen, hram]
      exact .pure _ hgot

/-- Every command is answered by a datagram of three bytes in three blocks. -/
def threeBlocks (_ : List UInt8) : List Block :=
  [⟨[3, 0], []⟩, ⟨[7, 8], [0x30, 0x30]⟩, ⟨[9], [0x30]⟩]

theorem threeBlocks_carries : Carries [7, 8, 9] (threeBlocks []) :=
  ⟨3, 0, ⟨by decide, by decide⟩, rfl, ⟨_, _, rfl, by decide⟩, by decide⟩

/-- Two polls. -/
theorem receive_in_order_threeBlocks :
    Achieves (receive (ultimate threeBlocks inTurn) 0x5000 2) ⟨openMem, (idleUltimate, 0), []⟩
      fun got s' => ∃ replies : List (List UInt8 × List Block),
        replies.length = 2 ∧ (∀ x ∈ replies, Carries x.1 x.2) ∧
        got = (replies.map Prod.fst).filter (· ≠ []) ∧
        Resting ([] ++ replies.map fun x => (readCommand 7, x.2)) s'.dev.1 := by
  have hspacious : Spacious (threeBlocks []) := by
    unfold Spacious
    decide
  have hanswer : ∀ cmd, threeBlocks cmd ≠ [] ∧ Spacious (threeBlocks cmd) :=
    fun cmd => ⟨List.cons_ne_nil _ _, hspacious⟩
  refine receive_in_order (ultimate_implements (fun cmd => (hanswer cmd).1) inTurn) ?_ 2
    (inTurn_punctual hanswer steady_idle) (by decide) rfl rfl ⟨by decide, idleUltimate_rewound, rfl⟩
  rintro blocks rfl
  exact ⟨_, threeBlocks_carries⟩

end C64WireGuard.Uci
