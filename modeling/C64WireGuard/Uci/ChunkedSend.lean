import C64WireGuard.Uci.PlainSend

/-!
# Sending in parts

One pass of `@part_loop`: what `uci_send_part` pushes, how far it moves the offset, and what its
carry says about the device's answer. A part that completes the datagram is judged by the count in
its reply, any other by its status line.
-/

namespace C64WireGuard.Uci

open Bytes

variable {δ : Type} {D : Device δ} {s s' : State δ}

/-! ## Settling -/

/-- `uci_settle_status` only looks, and gives up only when it answers nothing. -/
theorem settleLoop_spec (reads : Nat) {prev : UInt8} {r : Option UInt8}
    (h : (settleLoop D reads prev).Returns s r s') :
    Since s (fun es m => Quiet es ∧ readsOf .uciRespData es = [] ∧ readsOf .uciStatusData es = [] ∧
      (r = none ↔ .expired ∈ es) ∧ m.core = s.mem.core) s' := by
  induction reads generalizing prev s with
  | zero =>
    simp only [settleLoop, Prog.returns_bind, Prog.returns_pure] at h
    obtain ⟨u₁, s₁, hgive, u₂, s₂, hset, rfl, rfl⟩ := h
    obtain ⟨hlog₁, hmem₁⟩ := giveUp_spec hgive
    obtain ⟨hlog₂, hmem₂⟩ := setLastError_spec hset
    refine ⟨[.expired], hlog₂.trans hlog₁, by simp, by simp, by simp, by simp, ?_⟩
    rw [hmem₂, hmem₁]
    rfl
  | succ reads ih =>
    simp only [settleLoop, Prog.returns_bind, Prog.returns_ite, Prog.returns_pure] at h
    obtain ⟨v, s₁, hlda, h⟩ := h
    obtain ⟨hlog₁, hmem₁⟩ := lda_spec hlda
    rcases h with ⟨-, rfl, rfl⟩ | ⟨-, h⟩
    · exact ⟨_, hlog₁, by simp, by simp, by simp, by simp, by rw [hmem₁]⟩
    · obtain ⟨es, hes, hquiet, hresp, hstatus, hexp, hcore⟩ := ih h
      refine ⟨.read .uciStatus v :: es, ?_, by simp [hquiet], by simp [hresp], by simp [hstatus],
        by simp [hexp], by rw [hcore, hmem₁]⟩
      rw [hes, hlog₁, List.append_assoc]
      rfl

/-! ## A part that does not complete the datagram -/

theorem spStatusErr_fails (e : UInt8) : Fails (spStatusErr e : Prog (State δ) Bool) := by
  intro s c s' h
  simp only [spStatusErr, Prog.returns_bind, Prog.returns_when, Prog.returns_pure] at h
  obtain ⟨u₁, s₁, hset, m, s₂, hcells, u₃, s₃, hwhen, rfl, rfl⟩ := h
  obtain ⟨hlog₁, hmem₁⟩ := setLastError_spec hset
  obtain ⟨rfl, rfl⟩ := cells_spec hcells
  have hcore₁ : s₁.mem.core = s.mem.core := by
    rw [hmem₁]
    rfl
  rcases hwhen with ⟨-, hset'⟩ | ⟨-, rfl⟩
  · obtain ⟨hlog₃, hmem₃⟩ := setLastError_spec hset'
    refine ⟨rfl, hlog₃.trans hlog₁, ?_⟩
    rw [← hcore₁, hmem₃]
    rfl
  · exact ⟨rfl, hlog₁, hcore₁⟩

/-- The status line decides over a part that does not complete the datagram. -/
theorem spMore_spec {c : Bool} (h : (spMore D).Returns s c s') :
    Since s (fun es m => Quiet es ∧ Written s.mem m ∧
      (c = false → LineOk (readsOf .uciStatusData es)) ∧
      (.expired ∉ es → LineOk (readsOf .uciStatusData es) → c = false)) s' := by
  simp only [spMore, Prog.returns_bind, Prog.returns_ite, Prog.returns_pure] at h
  obtain ⟨u₁, s₁, hzero, c₂, s₂, hstaged, h⟩ := h
  obtain ⟨hlog₁, hmem₁, -⟩ := store_spec hzero
  obtain ⟨es₂, hes₂, hwaited⟩ := statusWait_spec hstaged
  rw [hlog₁] at hes₂
  have hwritten₂ : Written s.mem s₂.mem := by
    refine Written.trans ?_ (.of_core hwaited.core)
    rw [hmem₁]
    rfl
  rcases h with ⟨rfl, rfl, rfl⟩ | ⟨-, r, s₃, hsettle, h⟩
  · exact ⟨es₂, hes₂, hwaited.quiet, hwritten₂, by simp,
      fun h => absurd (hwaited.expired_iff.mp rfl) h⟩
  obtain ⟨es₃, hes₃, hquiet₃, -, hstatus₃, hexp₃, hcore₃⟩ := settleLoop_spec _ hsettle
  have hlog₃ : s₃.log = s.log ++ (es₂ ++ es₃) := by rw [hes₃, hes₂, List.append_assoc]
  have hwritten₃ : Written s.mem s₃.mem := hwritten₂.trans (.of_core hcore₃)
  cases r with
  | none =>
    obtain ⟨rfl, rfl⟩ := Prog.returns_pure.mp h
    exact ⟨_, hlog₃, by simp [hwaited.quiet, hquiet₃], hwritten₃, by simp, by simp [hexp₃.mp rfl]⟩
  | some status =>
    simp only [Prog.returns_bind, Prog.returns_ite, Prog.returns_when, Prog.returns_pure] at h
    obtain ⟨u₄, s₄, hread, c₅, s₅, hdrain, h⟩ := h
    have hread : Since s₃ (fun es m => Quiet es ∧ readsOf .uciStatusData es = [] ∧
        Written s₃.mem m) s₄ := by
      rcases hread with ⟨-, hread⟩ | ⟨-, rfl⟩
      · obtain ⟨es₄, hes₄, hquiet₄, hstatus₄, -, -, hm₄, -⟩ := readWriteResp_spec hread
        refine ⟨es₄, hes₄, hquiet₄, hstatus₄, ?_⟩
        rw [hm₄]
        rfl
      · exact ⟨[], (List.append_nil _).symm, quiet_nil, rfl, .of_core rfl⟩
    obtain ⟨es₄, hes₄, hquiet₄, hstatus₄, hwritten₄⟩ := hread
    obtain ⟨es₅, hes₅, hquiet₅, hexp₅, hcore₅, hdrained⟩ := drainAck_spec hdrain
    have hlog₅ : s₅.log = s.log ++ (es₂ ++ es₃ ++ es₄ ++ es₅) := by
      rw [hes₅, hes₄, hlog₃]
      simp only [List.append_assoc]
    have hquiet : Quiet (es₂ ++ es₃ ++ es₄ ++ es₅) := by
      simp [hwaited.quiet, hquiet₃, hquiet₄, hquiet₅]
    have hwritten₅ : Written s.mem s₅.mem :=
      hwritten₃.trans (hwritten₄.trans (.of_core hcore₅))
    have hline : readsOf .uciStatusData (es₂ ++ es₃ ++ es₄ ++ es₅) =
        readsOf .uciStatusData es₅ := by
      simp [hwaited.readsOf_data, hstatus₃, hstatus₄]
    rcases h with ⟨rfl, rfl, rfl⟩ | ⟨hc₅, m, s₆, hcells, h⟩
    · exact ⟨_, hlog₅, hquiet, hwritten₅, by simp, by simp [hexp₅.mp rfl]⟩
    obtain ⟨rfl, rfl⟩ := cells_spec hcells
    rw [Bool.not_eq_true] at hc₅
    have hrefused := refused_drained s₄.mem (readsOf .uciStatusData es₅)
    rw [← hdrained hc₅] at hrefused
    rcases h with ⟨hbad, hfail⟩ | ⟨hgood, rfl, rfl⟩
    · obtain ⟨rfl, hlog₆, hcore₆⟩ := spStatusErr_fails _ _ _ _ hfail
      refine ⟨_, hlog₆.trans hlog₅, hquiet, hwritten₅.trans (.of_core hcore₆), by simp, ?_⟩
      rw [hline, ← hrefused, hbad]
      simp
    · rw [Bool.not_eq_true] at hgood
      exact ⟨_, hlog₅, hquiet, hwritten₅, fun _ => by rw [hline]; exact hrefused.mp hgood,
        fun _ _ => rfl⟩

/-! ## `uci_send_part` -/

/-- The `SOCKET_WRITE_CHUNK` for the part of the datagram at `uci_chunk_off`. -/
def partCommand (m : UciMem) : List UInt8 :=
  [uciTargetNetwork, uciCmdSocketWriteChunk, m.uciSocketId] ++ word m.uciChunkOff ++
    word m.uciSendRem ++ ramBytes m.ram (m.netUdpSendPtr + m.uciChunkOff) (partLen m)

/-- What the device answered to a part of `m`'s datagram is in order. -/
def PartOk (m : UciMem) (es : List Access) : Prop :=
  ErrorClear es ∧
    if m.uciChunkOff + partLen m = m.uciSendRem
    then (readsOf .uciRespData es).take 2 = word m.uciSendRem
    else LineOk (readsOf .uciStatusData es)

/-- The cells after a part: the offset may have moved on. -/
def PartDone (m m' : UciMem) : Prop :=
  m'.core = { m.core with
    uciChunkOff := m'.uciChunkOff
    uciChunkLen := m'.uciChunkLen
    uciRespCount := m'.uciRespCount
    uciWriteResp := m'.uciWriteResp }

theorem PartDone.of_written {m m' : UciMem} (h : Written m m') : PartDone m m' := by
  have hoff : m'.uciChunkOff = m.uciChunkOff := (congrArg UciMem.uciChunkOff h :)
  rw [PartDone, hoff, h]
  rfl

theorem PartDone.trans {m₁ m₂ m₃ : UciMem} (h₁ : PartDone m₁ m₂) (h₂ : PartDone m₂ m₃) :
    PartDone m₁ m₃ := by
  unfold PartDone at *
  rw [h₂, h₁]

/-- The stretch of a part of `m`'s datagram, by its carry, with the cells it leaves. -/
structure PartEnds (m : UciMem) (c : Bool) (es : List Access) (m' : UciMem) : Prop where
  exchange : Exchange (partCommand m) es
  sent : c = false → pushed es = [partCommand m]
  done : PartDone m m'
  offset : c = false → m'.uciChunkOff = m.uciChunkOff + partLen m
  ok : c = false → PartOk m es
  passes : .expired ∉ es → PartOk m es → c = false

/-- What follows the push of a part, when the offset `off` has moved on already. -/
theorem partReply_spec {c : Bool} (hmax : s.mem.uciSendRem < 65535)
    (h : (if s.mem.uciChunkOff = s.mem.uciSendRem then completingPart D else spMore D).Returns
      s c s') :
    Since s (fun es m => Quiet es ∧ Written s.mem m ∧
      (c = false → if s.mem.uciChunkOff = s.mem.uciSendRem
        then (readsOf .uciRespData es).take 2 = word s.mem.uciSendRem
        else LineOk (readsOf .uciStatusData es)) ∧
      (.expired ∉ es → (if s.mem.uciChunkOff = s.mem.uciSendRem
        then (readsOf .uciRespData es).take 2 = word s.mem.uciSendRem
        else LineOk (readsOf .uciStatusData es)) → c = false)) s' := by
  by_cases hlast : s.mem.uciChunkOff = s.mem.uciSendRem
  · rw [if_pos hlast] at h
    simp only [if_pos hlast]
    have hfail : ∀ e, Fails (if e = uciErrShortWrite then spStatusErr e else failWith e :
        Prog (State δ) Bool) := by
      intro e
      split
      · exact spStatusErr_fails e
      · exact failWith_fails e
    obtain ⟨es, hes, hquiet, hwritten, hiff⟩ := writeReply_spec hfail hmax h
    exact ⟨es, hes, hquiet, hwritten, fun hc => (hiff.mp hc).2, fun hexp hresp =>
      hiff.mpr ⟨hexp, hresp⟩⟩
  · rw [if_neg hlast] at h
    simp only [if_neg hlast]
    exact spMore_spec h

/-- **`uci_send_part`** pushes one part at most, moves the offset past it, and comes through exactly
on an answer that is in order, time allowing. -/
theorem uciSendPart_spec {c : Bool} (hoff : s.mem.uciChunkOff < s.mem.uciSendRem)
    (hmax : s.mem.uciSendRem < 65535) (h : (uciSendPart D).Returns s c s') :
    Since s (PartEnds s.mem c) s' := by
  simp only [uciSendPart, Prog.returns_bind, Prog.returns_ite, Prog.returns_pure] at h
  obtain ⟨c₁, s₁, hidle, h⟩ := h
  obtain ⟨es₁, hes₁, hidled⟩ := uciWaitIdle_spec hidle
  rcases h with ⟨rfl, rfl, rfl⟩ | ⟨hc₁, h⟩
  · exact ⟨es₁, hes₁, .silent hidled.still, by simp, .of_written (.of_core hidled.core), by simp,
      by simp, fun hexp => absurd (hidled.expired_iff.mp rfl) hexp⟩
  rw [Bool.not_eq_true] at hc₁
  subst hc₁
  have hclean₁ : .expired ∉ es₁ := fun he => by cases hidled.expired_iff.mpr he
  obtain ⟨u₂, s₂, hlen, u₃, s₃, hbegin, u₄, s₄, hput, m, s₅, hcells, h⟩ := h
  obtain ⟨hlog₂, hmem₂, -⟩ := store_spec hlen
  obtain ⟨hlog₃, hmem₃⟩ := sta_spec hbegin
  obtain ⟨hlog₄, hmem₄⟩ := sta_spec hput
  obtain ⟨rfl, rfl⟩ := cells_spec hcells
  obtain ⟨u₅, s₅, hput₅, u₆, s₆, hput₆, u₇, s₇, hput₇, u₈, s₈, hput₈, u₉, s₉, hput₉, u₁₀, s₁₀, hmove,
    u₁₁, s₁₁, hbody, c₁₂, s₁₂, hpush, h⟩ := h
  obtain ⟨hlog₅, hmem₅⟩ := sta_spec hput₅
  obtain ⟨hlog₆, hmem₆⟩ := sta_spec hput₆
  obtain ⟨hlog₇, hmem₇⟩ := sta_spec hput₇
  obtain ⟨hlog₈, hmem₈⟩ := sta_spec hput₈
  obtain ⟨hlog₉, hmem₉⟩ := sta_spec hput₉
  obtain ⟨hlog₁₀, hmem₁₀, -⟩ := store_spec hmove
  obtain ⟨hlog₁₁, hmem₁₁⟩ := bodyLoop_spec (Nat.zero_lt_succ 255) hbody
  obtain ⟨es₁₂, hes₁₂, hpushed⟩ := uciPushWait_spec hpush
  have hmem : s₄.mem = { s.mem with uciChunkLen := partLen s.mem } := by
    rw [hmem₄, hmem₃, hmem₂, hidled.mem_eq]
  -- The offset moves on before the body is written; the operand was taken from it before that.
  have hpart : s.mem.uciChunkOff + partLen s.mem ≤ s.mem.uciSendRem := by
    unfold partLen
    omega
  have hmoved : s₁₀.mem = { s.mem with
      uciChunkLen := partLen s.mem
      uciChunkOff := s.mem.uciChunkOff + partLen s.mem } := by
    rw [hmem₁₀, hmem₉, hmem₈, hmem₇, hmem₆, hmem₅, hmem]
    dsimp only
    rw [Nat.mod_eq_of_lt (by omega)]
  have haddr : Operand.addr ⟨(s.mem.netUdpSendPtr + s.mem.uciChunkOff) % 65536, 0⟩ =
      (s.mem.netUdpSendPtr + s.mem.uciChunkOff) % 65536 := by
    rw [Operand.addr, Nat.add_zero, Nat.mod_mod]
  have hlog : s₁₂.log = s.log ++ (es₁ ++ commandWrites (partCommand s.mem) ++
      .write .uciControl uciCtrlPushCmd :: es₁₂) := by
    rw [hes₁₂, hlog₁₁, hmoved, hlog₁₀, hlog₉, hlog₈, hlog₇, hlog₆, hlog₅, hlog₄, hlog₃, hlog₂, hes₁,
      hmem]
    dsimp only
    rw [haddr, ramBytes_mod]
    simp [partCommand, commandWrites, word]
  have hdone : PartDone s.mem s₁₂.mem := by
    refine PartDone.trans ?_ (.of_written (.of_core hpushed.core))
    rw [hmem₁₁, hmoved]
    rfl
  have hoff' : s₁₂.mem.uciChunkOff = s.mem.uciChunkOff + partLen s.mem := by
    have hkeep : s₁₂.mem.uciChunkOff = s₁₁.mem.uciChunkOff := (congrArg UciMem.uciChunkOff hpushed.core :)
    rw [hkeep, hmem₁₁, hmoved]
  have hrem' : s₁₂.mem.uciSendRem = s.mem.uciSendRem := (congrArg UciMem.uciSendRem hdone :)
  have hafter : ∀ fs, Quiet fs → Quiet (es₁₂ ++ fs) := fun fs hfs => by simp [hpushed.quiet, hfs]
  rcases h with ⟨rfl, rfl, rfl⟩ | ⟨hc₁₂, c₁₃, s₁₃, hcheck, h⟩
  · exact ⟨_, hlog, .command hidled.still hpushed.quiet, by simp, hdone, by simp, by simp,
      fun hexp => absurd (hpushed.expired_iff.mp rfl) fun h => hexp (by simp [h])⟩
  rw [Bool.not_eq_true] at hc₁₂
  subst hc₁₂
  have hclean₁₂ : .expired ∉ es₁₂ := fun he => by cases hpushed.expired_iff.mpr he
  obtain ⟨v, hv, hmem₁₃, hlog₁₃⟩ := uciCheckErr_spec hcheck
  have hverdict : ∀ fs, verdict (es₁ ++ commandWrites (partCommand s.mem) ++
      .write .uciControl uciCtrlPushCmd :: (es₁₂ ++ .read .uciStatus v :: fs)) = some v :=
    fun fs => verdict_command hidled.quiet hpushed
  rcases h with ⟨rfl, hfail⟩ | ⟨hc₁₃, m, s₁₄, hcells', h⟩
  · -- The error bit was set.
    obtain ⟨c₁₄, s₁₄, hdrain, hfail⟩ := hfail
    obtain ⟨es₁₄, hes₁₄, hquiet₁₄, hexp₁₄, hcore₁₄, -⟩ := drainAck_spec hdrain
    rw [if_pos rfl] at hlog₁₃
    have hquiet : Quiet (.read .uciStatus v ::
        (.write .uciControl uciCtrlClrErr :: es₁₄)) := by
      have hclr : Quiet [.write .uciControl uciCtrlClrErr] := Calm.quiet (by simp)
      simpa [hquiet₁₄] using hclr
    have hnot : ¬ PartOk s.mem (es₁ ++ commandWrites (partCommand s.mem) ++
        .write .uciControl uciCtrlPushCmd :: (es₁₂ ++ .read .uciStatus v ::
          (.write .uciControl uciCtrlClrErr :: es₁₄))) := by
      rintro ⟨⟨w, hw, hzero⟩, -⟩
      rw [hverdict, Option.some.injEq] at hw
      rw [← hw, ← hv] at hzero
      cases hzero
    have hlog₁₄ : s₁₄.log = s.log ++ (es₁ ++ commandWrites (partCommand s.mem) ++
        .write .uciControl uciCtrlPushCmd :: (es₁₂ ++ .read .uciStatus v ::
          (.write .uciControl uciCtrlClrErr :: es₁₄))) := by
      rw [hes₁₄, hlog₁₃, hlog]
      simp only [List.append_assoc, List.cons_append, List.nil_append]
    have hdone₁₄ : PartDone s.mem s₁₄.mem := by
      refine hdone.trans (.of_written (.of_core ?_))
      rw [hcore₁₄, hmem₁₃]
    have hends : c = true ∧ s'.log = s₁₄.log ∧ s'.mem.core = s₁₄.mem.core := by
      rcases hfail with ⟨-, rfl, rfl⟩ | ⟨-, hfail⟩
      · exact ⟨rfl, rfl, rfl⟩
      · exact spStatusErr_fails _ _ _ _ hfail
    obtain ⟨rfl, hlog', hcore'⟩ := hends
    exact ⟨_, hlog'.trans hlog₁₄, .command hidled.still (hafter _ hquiet), by simp,
      hdone₁₄.trans (.of_written (.of_core hcore')), by simp, by simp, fun _ hok =>
        absurd hok hnot⟩
  · rw [Bool.not_eq_true] at hc₁₃
    subst hc₁₃
    rw [if_neg (by decide)] at hlog₁₃
    obtain ⟨rfl, rfl⟩ := cells_spec hcells'
    rw [hmem₁₃] at h
    have hreply := partReply_spec (s := s₁₃) (by rw [hmem₁₃, hrem']; exact hmax)
      (by rw [hmem₁₃]; simpa only [Prog.returns_ite] using h)
    obtain ⟨es₁₄, hes₁₄, hquiet₁₄, hwritten₁₄, hgood, hpasses⟩ := hreply
    simp only [hmem₁₃, hoff', hrem'] at hgood hpasses hwritten₁₄
    have hquiet : Quiet (.read .uciStatus v :: es₁₄) := by simp [hquiet₁₄]
    have hclear : ErrorClear (es₁ ++ commandWrites (partCommand s.mem) ++
        .write .uciControl uciCtrlPushCmd :: (es₁₂ ++ .read .uciStatus v :: es₁₄)) :=
      ⟨v, hverdict _, hv.mp rfl⟩
    have hresp : readsOf .uciRespData (es₁ ++ commandWrites (partCommand s.mem) ++
        .write .uciControl uciCtrlPushCmd :: (es₁₂ ++ .read .uciStatus v :: es₁₄)) =
        readsOf .uciRespData es₁₄ := by
      simp [hidled.readsOf_data, hpushed.readsOf_data]
    have hline : readsOf .uciStatusData (es₁ ++ commandWrites (partCommand s.mem) ++
        .write .uciControl uciCtrlPushCmd :: (es₁₂ ++ .read .uciStatus v :: es₁₄)) =
        readsOf .uciStatusData es₁₄ := by
      simp [hidled.readsOf_data, hpushed.readsOf_data]
    refine ⟨_, ?_, .command hidled.still (hafter _ hquiet),
      fun _ => pushed_command hidled.quiet (hafter _ hquiet) _,
      hdone.trans (.of_written hwritten₁₄), fun _ => ?_, fun hc => ⟨hclear, ?_⟩, fun hexp hok => ?_⟩
    · rw [hes₁₄, hlog₁₃, hlog]
      simp only [List.append_assoc, List.cons_append, List.nil_append]
    · have hkeep : s'.mem.uciChunkOff = s₁₂.mem.uciChunkOff :=
        (congrArg UciMem.uciChunkOff hwritten₁₄ :)
      rw [hkeep, hoff']
    · rw [hresp, hline]
      exact hgood hc
    · obtain ⟨-, hok⟩ := hok
      rw [hresp, hline] at hok
      exact hpasses (fun he => hexp (by simp [he])) hok

/-! ## `@part_loop` -/

/-- The cells with the offset at part `i`. -/
def partAt (m : UciMem) (i : Nat) : UciMem := { m with uciChunkOff := uciChunkPartMax * i }

/-- A part that was pushed and answered in order. -/
structure Passed (m : UciMem) (es : List Access) : Prop where
  exchange : Exchange (partCommand m) es
  sent : pushed es = [partCommand m]
  ok : PartOk m es

/-- One more part. -/
theorem passed_concat {m : UciMem} {segs : List (List Access)} {es : List Access}
    (h : ∀ i (hi : i < segs.length), Passed (partAt m i) segs[i])
    (hlast : Passed (partAt m segs.length) es) :
    ∀ i (hi : i < (segs ++ [es]).length), Passed (partAt m i) (segs ++ [es])[i] := by
  intro i hi
  rw [List.length_append, List.length_singleton] at hi
  by_cases hlt : i < segs.length
  · rw [List.getElem_append_left hlt]
    exact h i hlt
  · obtain rfl : i = segs.length := by omega
    rw [List.getElem_append_right (Nat.le_refl _)]
    simpa only [Nat.sub_self, List.getElem_singleton] using hlast

/-- A part's stretch depends on the cells it reads only. -/
theorem partCommand_congr {m m' : UciMem} (h : PartDone m m') (i : Nat)
    (hoff : m'.uciChunkOff = uciChunkPartMax * i) :
    partCommand m' = partCommand (partAt m i) ∧
      ∀ es, PartOk m' es ↔ PartOk (partAt m i) es := by
  have hid : m'.uciSocketId = m.uciSocketId := (congrArg UciMem.uciSocketId h :)
  have hram : m'.ram = m.ram := (congrArg UciMem.ram h :)
  have hptr : m'.netUdpSendPtr = m.netUdpSendPtr := (congrArg UciMem.netUdpSendPtr h :)
  have hrem : m'.uciSendRem = m.uciSendRem := (congrArg UciMem.uciSendRem h :)
  have hlen : partLen m' = partLen (partAt m i) := by
    rw [partLen, partLen, hrem, hoff]
    rfl
  constructor
  · rw [partCommand, partCommand, hid, hram, hptr, hrem, hoff, hlen]
    rfl
  · intro es
    rw [PartOk, PartOk, hrem, hoff, hlen]
    rfl

/-- **The passes of `@part_loop`**: every part before the last one passed; the last one passed too
and completes the datagram, or the loop ends with its failure. -/
inductive PartsEnd (m : UciMem) : Bool → List (List Access) → Prop
  | sent {segs : List (List Access)}
      (passed : ∀ i (h : i < segs.length), Passed (partAt m i) segs[i])
      (before : ∀ i < segs.length, uciChunkPartMax * i < m.uciSendRem)
      (whole : m.uciSendRem ≤ uciChunkPartMax * segs.length) : PartsEnd m false segs
  | failed {segs : List (List Access)} {es : List Access}
      (passed : ∀ i (h : i < segs.length), Passed (partAt m i) segs[i])
      (before : uciChunkPartMax * segs.length < m.uciSendRem)
      (exchange : Exchange (partCommand (partAt m segs.length)) es)
      (bad : .expired ∈ es ∨ ¬ PartOk (partAt m segs.length) es) :
      PartsEnd m true (segs ++ [es])

/-- A pass that goes on has moved the offset on, and not past the end. -/
theorem partLoop_next {u u' : Unit} (hoff : s.mem.uciChunkOff < s.mem.uciSendRem)
    (hmax : s.mem.uciSendRem < 65535) (h : (partLoop D u).Returns s (.inl u') s') :
    s'.mem.uciSendRem = s.mem.uciSendRem ∧ s.mem.uciChunkOff < s'.mem.uciChunkOff ∧
      s'.mem.uciChunkOff < s'.mem.uciSendRem := by
  simp only [partLoop, Prog.returns_bind, Prog.returns_ite, Prog.returns_pure] at h
  obtain ⟨c₁, s₁, hpart, ⟨-, hcontra, -⟩ | ⟨hc₁, m, s₂, hcells, h⟩⟩ := h
  · cases hcontra
  obtain ⟨rfl, rfl⟩ := cells_spec hcells
  rcases h with ⟨-, hcontra, -⟩ | ⟨hne, -, rfl⟩
  · cases hcontra
  rw [Bool.not_eq_true] at hc₁
  subst hc₁
  obtain ⟨es, -, hends⟩ := uciSendPart_spec hoff hmax hpart
  have hnext := hends.offset rfl
  have hrem : s'.mem.uciSendRem = s.mem.uciSendRem := (congrArg UciMem.uciSendRem hends.done :)
  unfold partLen uciChunkPartMax at hnext
  exact ⟨hrem, by omega, by omega⟩

theorem partLoop_spec {c : Bool} (hoff : s.mem.uciChunkOff = 0) (hpos : 0 < s.mem.uciSendRem)
    (hmax : s.mem.uciSendRem < 65535) (h : (Prog.loop (partLoop D) ()).Returns s c s') :
    ∃ segs, s'.log = s.log ++ segs.flatten ∧ PartDone s.mem s'.mem ∧ PartsEnd s.mem c segs := by
  refine h.loop_rule
    (I := fun _ t => ∃ segs : List (List Access), t.log = s.log ++ segs.flatten ∧
      PartDone s.mem t.mem ∧ t.mem.uciChunkOff = uciChunkPartMax * segs.length ∧
      uciChunkPartMax * segs.length < s.mem.uciSendRem ∧
      ∀ i (h : i < segs.length), Passed (partAt s.mem i) segs[i])
    (Q := fun c t => ∃ segs, t.log = s.log ++ segs.flatten ∧ PartDone s.mem t.mem ∧
      PartsEnd s.mem c segs) ?_ ?_
    ⟨[], (List.append_nil _).symm, .of_written (.of_core rfl), hoff, hpos, by simp⟩
  · rintro ⟨⟩ t ⟨⟩ t' ⟨segs, hlog, hdone, hoff, hlt, hpassed⟩ hround
    simp only [partLoop, Prog.returns_bind, Prog.returns_ite, Prog.returns_pure] at hround
    obtain ⟨c₁, t₁, hpart, ⟨-, hcontra, -⟩ | ⟨hc₁, m, t₂, hcells, hround⟩⟩ := hround
    · cases hcontra
    obtain ⟨rfl, rfl⟩ := cells_spec hcells
    rcases hround with ⟨-, hcontra, -⟩ | ⟨hne, -, rfl⟩
    · cases hcontra
    rw [Bool.not_eq_true] at hc₁
    subst hc₁
    have hrem : t.mem.uciSendRem = s.mem.uciSendRem := (congrArg UciMem.uciSendRem hdone :)
    obtain ⟨es, hes, hends⟩ := uciSendPart_spec (by omega) (by omega) hpart
    obtain ⟨hcmd, hok⟩ := partCommand_congr hdone segs.length hoff
    have hnext := hends.offset rfl
    have hrem' : t'.mem.uciSendRem = t.mem.uciSendRem := (congrArg UciMem.uciSendRem hends.done :)
    have hfull : partLen t.mem = uciChunkPartMax := by
      unfold partLen uciChunkPartMax at *
      omega
    refine ⟨segs ++ [es], ?_, hdone.trans hends.done, ?_, ?_, ?_⟩
    · rw [hes, hlog, List.flatten_append, List.append_assoc]
      simp
    · rw [hnext, hfull, hoff, List.length_append, List.length_singleton, Nat.mul_succ]
    · unfold partLen uciChunkPartMax at *
      rw [List.length_append, List.length_singleton]
      omega
    · exact passed_concat hpassed
        ⟨hcmd ▸ hends.exchange, hcmd ▸ hends.sent rfl, (hok es).mp (hends.ok rfl)⟩
  · rintro ⟨⟩ t c t' ⟨segs, hlog, hdone, hoff, hlt, hpassed⟩ hround
    simp only [partLoop, Prog.returns_bind, Prog.returns_ite, Prog.returns_pure] at hround
    obtain ⟨c₁, t₁, hpart, hround⟩ := hround
    have hrem : t.mem.uciSendRem = s.mem.uciSendRem := (congrArg UciMem.uciSendRem hdone :)
    obtain ⟨es, hes, hends⟩ := uciSendPart_spec (by omega) (by omega) hpart
    obtain ⟨hcmd, hok⟩ := partCommand_congr hdone segs.length hoff
    have hlog' : t₁.log = s.log ++ (segs ++ [es]).flatten := by
      rw [hes, hlog, List.flatten_append, List.append_assoc]
      simp
    rcases hround with ⟨rfl, heq, rfl⟩ | ⟨hc₁, m, t₂, hcells, hround⟩
    · cases heq
      refine ⟨segs ++ [es], hlog', hdone.trans hends.done,
        .failed hpassed hlt (hcmd ▸ hends.exchange) ?_⟩
      by_contra hgood
      rw [not_or, not_not] at hgood
      cases hends.passes hgood.1 ((hok es).mpr hgood.2)
    · obtain ⟨rfl, rfl⟩ := cells_spec hcells
      rcases hround with ⟨hend, heq, rfl⟩ | ⟨-, hcontra, -⟩
      · cases heq
        rw [Bool.not_eq_true] at hc₁
        subst hc₁
        have hnext := hends.offset rfl
        have hrem' : t'.mem.uciSendRem = t.mem.uciSendRem :=
          (congrArg UciMem.uciSendRem hends.done :)
        refine ⟨segs ++ [es], hlog', hdone.trans hends.done, .sent ?_ ?_ ?_⟩
        · exact passed_concat hpassed
            ⟨hcmd ▸ hends.exchange, hcmd ▸ hends.sent rfl, (hok es).mp (hends.ok rfl)⟩
        · intro i hi
          rw [List.length_append, List.length_singleton] at hi
          exact lt_of_le_of_lt (Nat.mul_le_mul_left _ (by omega)) hlt
        · unfold partLen uciChunkPartMax at *
          rw [List.length_append, List.length_singleton]
          omega
      · cases hcontra

end C64WireGuard.Uci
