import C64WireGuard.Uci.OpenClose

/-!
# Sending in one `SOCKET_WRITE`

**Theorem (`netUdpSend_plain`).** Without chunked writes, `net_udp_send` refuses a datagram of more
than 892 bytes before it touches a register; any other it pushes at most once, whole, after at most
one `UDP_CONNECT`; and it reports success exactly when there was a socket, no wait of the write gave
up, the error bit was clear and the device counted every byte.

All of it is read off the log, over every device.
-/

namespace C64WireGuard.Uci

open Bytes

variable {δ : Type} {D : Device δ} {s s' : State δ}

/-! ## The count in a reply -/

/-- The two bytes of a 16-bit number, low byte first. -/
def word (n : Nat) : List UInt8 := [lo n, hi n]

/-- A count below $FFFF is right when both of its bytes are. -/
theorem countError_eq_none {m : UciMem} (h : m.uciSendRem < 65535) :
    countError m = none ↔
      2 ≤ m.uciRespCount ∧ byte m.uciWriteResp 0 = lo m.uciSendRem ∧
        byte m.uciWriteResp 1 = hi m.uciSendRem := by
  have hffff : ¬ (lo m.uciSendRem &&& hi m.uciSendRem = 0xff) := by
    intro heq
    have hand : (lo m.uciSendRem).toNat &&& (hi m.uciSendRem).toNat = 255 := by
      rw [← UInt8.toNat_and, heq]
      rfl
    have hlo := hand ▸ Nat.and_le_left (n := (lo m.uciSendRem).toNat)
      (m := (hi m.uciSendRem).toNat)
    have hhi := hand ▸ Nat.and_le_right (n := (lo m.uciSendRem).toNat)
      (m := (hi m.uciSendRem).toNat)
    simp only [lo, hi, UInt8.toNat_ofNat'] at hlo hhi
    omega
  unfold countError
  by_cases hcount : m.uciRespCount < 2
  · simp [hcount]
  · simp only [if_neg hcount, Nat.le_of_not_lt hcount, true_and]
    by_cases hlo : byte m.uciWriteResp 0 = lo m.uciSendRem
    · by_cases hhi : byte m.uciWriteResp 1 = hi m.uciSendRem
      · simp [hlo, hhi, hffff]
      · simp only [hlo, hhi, ne_eq, not_true_eq_false, not_false_eq_true, if_true, if_false,
          and_false, iff_false]
        split <;> simp
    · simp only [hlo, ne_eq, not_false_eq_true, if_true, false_and, iff_false]
      split <;> simp

example : countError { UciMem.start with
    uciSendRem := 300
    uciRespCount := 2
    uciWriteResp := #v[0x2b, 1] } = some uciErrShortWrite := by decide +kernel

/-- The count that a reply leaves in the cells, when all of it came. -/
theorem readWriteResp_spec {u : Unit} (h : (readWriteResp D).Returns s u s') :
    Since s (fun es m => Quiet es ∧ readsOf .uciStatusData es = [] ∧
      (m.uciRespCount = 2 ∨ m.uciRespCount < 2) ∧ (m.uciRespCount < 2 ↔ .expired ∈ es) ∧
      m = { s.mem with uciRespCount := m.uciRespCount, uciWriteResp := m.uciWriteResp } ∧
      (m.uciRespCount = 2 →
        readsOf .uciRespData es = [byte m.uciWriteResp 0, byte m.uciWriteResp 1])) s' := by
  obtain ⟨es, hes, hquiet, hstatus, -, hlen, hexp, hm⟩ := uciReadRespBytes_spec h
  refine ⟨es, hes, hquiet, hstatus, ?_⟩
  generalize readsOf .uciRespData es = bs at hlen hexp hm ⊢
  match bs, hlen with
  | [], _ =>
    rw [hm]
    exact ⟨Or.inr Nat.zero_lt_two, hexp, rfl, fun h => by cases h⟩
  | [a], _ =>
    rw [hm]
    exact ⟨Or.inr (Nat.lt_succ_self 1), hexp, rfl, fun h => by cases h⟩
  | [a, b], _ =>
    rw [hm]
    refine ⟨Or.inl rfl, hexp, rfl, fun _ => ?_⟩
    simp [storeFrom, byte_put]

/-! ## The write -/

theorem ramBytes_mod (ram : Nat → UInt8) (a n : Nat) : ramBytes ram (a % 65536) n = ramBytes ram a n := by
  simp [ramBytes]

/-- `SOCKET_WRITE` of the staged datagram. -/
def writeCommand (m : UciMem) : List UInt8 :=
  [uciTargetNetwork, uciCmdSocketWrite, m.uciSocketId] ++
    ramBytes m.ram m.netUdpSendPtr m.uciSendRem

/-- The cells after a write: the counters and the reply are new. -/
def Written (m m' : UciMem) : Prop :=
  m'.core = { m.core with
    uciChunkLen := m'.uciChunkLen
    uciRespCount := m'.uciRespCount
    uciWriteResp := m'.uciWriteResp }

theorem Written.of_core {m m' : UciMem} (h : m'.core = m.core) : Written m m' := by
  have hlen : m'.uciChunkLen = m.uciChunkLen := (congrArg UciMem.uciChunkLen h :)
  have hcount : m'.uciRespCount = m.uciRespCount := (congrArg UciMem.uciRespCount h :)
  have hresp : m'.uciWriteResp = m.uciWriteResp := (congrArg UciMem.uciWriteResp h :)
  rw [Written, hlen, hcount, hresp, h]
  rfl

theorem Written.trans {m₁ m₂ m₃ : UciMem} (h₁ : Written m₁ m₂) (h₂ : Written m₂ m₃) :
    Written m₁ m₃ := by
  unfold Written at *
  rw [h₂, h₁]

/-- The stretch of a write of `m`'s datagram, by its carry. -/
def WriteEnds (m : UciMem) (c : Bool) (es : List Access) : Prop :=
  Exchange (writeCommand m) es ∧
  (c = false → pushed es = [writeCommand m]) ∧
  (c = false ↔ .expired ∉ es ∧ ErrorClear es ∧
    (readsOf .uciRespData es).take 2 = word m.uciSendRem)

/-- A failure that only names its error. -/
def Fails (p : Prog (State δ) Bool) : Prop :=
  ∀ s c s', p.Returns s c s' → c = true ∧ s'.log = s.log ∧ s'.mem.core = s.mem.core

theorem failWith_fails (e : UInt8) : Fails (failWith e : Prog (State δ) Bool) := by
  intro s c s' h
  simp only [failWith, Prog.returns_bind, Prog.returns_pure] at h
  obtain ⟨u, s₁, hset, rfl, rfl⟩ := h
  obtain ⟨hlog, hmem⟩ := setLastError_spec hset
  exact ⟨rfl, hlog, by rw [hmem]; rfl⟩

/-- The count decides over a write that the device took. -/
theorem writeReply_spec {fail : UInt8 → Prog (State δ) Bool} (hfail : ∀ e, Fails (fail e)) {c : Bool}
    (hmax : s.mem.uciSendRem < 65535) (h : (writeReply D fail).Returns s c s') :
    Since s (fun es m => Quiet es ∧ Written s.mem m ∧
      (c = false ↔ .expired ∉ es ∧
        (readsOf .uciRespData es).take 2 = word s.mem.uciSendRem)) s' := by
  simp only [writeReply, Prog.returns_bind, Prog.returns_ite, Prog.returns_pure] at h
  obtain ⟨u₁, s₁, hzero, u₂, s₂, hread, c₃, s₃, hdrain, h⟩ := h
  obtain ⟨hlog₁, hmem₁, -⟩ := store_spec hzero
  obtain ⟨es₂, hes₂, hquiet₂, hstatus₂, hcount, hexp₂, hmem₂, hresp₂⟩ := readWriteResp_spec hread
  obtain ⟨es₃, hes₃, hquiet₃, hexp₃, hcore₃, -⟩ := drainAck_spec hdrain
  rw [hlog₁] at hes₂
  have hlog : s₃.log = s.log ++ (es₂ ++ es₃) := by rw [hes₃, hes₂, List.append_assoc]
  have hquiet : Quiet (es₂ ++ es₃) := by simp [hquiet₂, hquiet₃]
  have hwritten : Written s.mem s₃.mem := by
    refine Written.trans ?_ (.of_core hcore₃)
    rw [hmem₂, hmem₁]
    rfl
  rcases h with ⟨rfl, rfl, rfl⟩ | ⟨hc₃, m, s₄, hcells, h⟩
  · exact ⟨_, hlog, hquiet, hwritten, by simp [hexp₃.mp rfl]⟩
  obtain ⟨rfl, rfl⟩ := cells_spec hcells
  have hclean₃ : .expired ∉ es₃ := fun he => hc₃ (hexp₃.mpr he)
  have hrem : s₃.mem.uciSendRem = s.mem.uciSendRem := (congrArg UciMem.uciSendRem hwritten :)
  have hcount₃ : s₃.mem.uciRespCount = s₂.mem.uciRespCount :=
    (congrArg UciMem.uciRespCount hcore₃ :)
  have hresp₃ : s₃.mem.uciWriteResp = s₂.mem.uciWriteResp :=
    (congrArg UciMem.uciWriteResp hcore₃ :)
  have hverdict := countError_eq_none (m := s₃.mem) (by rw [hrem]; exact hmax)
  rw [hrem, hcount₃, hresp₃] at hverdict
  -- The count is right when no wait gave up and the first two bytes read are the length.
  have hiff : countError s₃.mem = none ↔
      .expired ∉ es₂ ++ es₃ ∧ (readsOf .uciRespData (es₂ ++ es₃)).take 2 = word s.mem.uciSendRem := by
    rw [hverdict]
    rcases hcount with htwo | hshort
    · have hclean₂ : .expired ∉ es₂ := fun he => by
        have := hexp₂.mpr he
        omega
      rw [readsOf_append, hresp₂ htwo]
      simp [htwo, hclean₂, hclean₃, word]
    · have hexp : .expired ∈ es₂ := hexp₂.mp hshort
      simp only [List.mem_append, hexp, true_or, not_true_eq_false, false_and, iff_false, not_and]
      omega
  cases herr : countError s₃.mem with
  | none =>
    rw [herr] at h
    obtain ⟨rfl, rfl⟩ := Prog.returns_pure.mp h
    exact ⟨_, hlog, hquiet, hwritten, by simpa [herr] using hiff⟩
  | some e =>
    rw [herr] at h
    obtain ⟨rfl, hlog₅, hcore₅⟩ := hfail e _ _ _ h
    refine ⟨_, hlog₅.trans hlog, hquiet, hwritten.trans (.of_core hcore₅), ?_⟩
    rw [← hiff, herr]
    simp

/-- **`SOCKET_WRITE`** -/
theorem socketWrite_spec {c : Bool} (hlen : s.mem.uciChunkLen = s.mem.uciSendRem)
    (hmax : s.mem.uciSendRem < 65535) (h : (socketWrite D).Returns s c s') :
    Since s (fun es m => WriteEnds s.mem c es ∧ Written s.mem m) s' := by
  simp only [socketWrite, Prog.returns_bind, Prog.returns_ite, Prog.returns_pure] at h
  obtain ⟨c₁, s₁, hidle, h⟩ := h
  obtain ⟨es₁, hes₁, hidled⟩ := uciWaitIdle_spec hidle
  rcases h with ⟨rfl, rfl, rfl⟩ | ⟨hc₁, h⟩
  · exact ⟨es₁, hes₁, ⟨.silent hidled.still, by simp, by simp [hidled.expired_iff.mp rfl]⟩,
      .of_core hidled.core⟩
  have hclean₁ : .expired ∉ es₁ := fun he => hc₁ (hidled.expired_iff.mpr he)
  obtain ⟨u₂, s₂, hbegin, u₃, s₃, hput, m, s₄, hcells, u₅, s₅, hid, m', s₆, hcells', u₇, s₇, hbody,
    c₈, s₈, hpush, h⟩ := h
  obtain ⟨hlog₂, hmem₂⟩ := sta_spec hbegin
  obtain ⟨hlog₃, hmem₃⟩ := sta_spec hput
  obtain ⟨rfl, rfl⟩ := cells_spec hcells
  obtain ⟨hlog₅, hmem₅⟩ := sta_spec hid
  obtain ⟨rfl, rfl⟩ := cells_spec hcells'
  obtain ⟨hlog₇, hmem₇⟩ := bodyLoop_spec (Nat.zero_lt_succ 255) hbody
  obtain ⟨es₈, hes₈, hpushed⟩ := uciPushWait_spec hpush
  have hcore₁ : s₅.mem.core = s.mem.core := by rw [hmem₅, hmem₃, hmem₂, hidled.core]
  have hid' : s₃.mem.uciSocketId = s.mem.uciSocketId := by
    rw [hmem₃, hmem₂]
    exact (congrArg UciMem.uciSocketId hidled.core :)
  have hbody' : ramBytes s₅.mem.ram (Operand.addr ⟨s₅.mem.netUdpSendPtr, 0⟩) s₅.mem.uciChunkLen =
      ramBytes s.mem.ram s.mem.netUdpSendPtr s.mem.uciSendRem := by
    have hram : s₅.mem.ram = s.mem.ram := (congrArg UciMem.ram hcore₁ :)
    have hptr : s₅.mem.netUdpSendPtr = s.mem.netUdpSendPtr :=
      (congrArg UciMem.netUdpSendPtr hcore₁ :)
    have hchunk : s₅.mem.uciChunkLen = s.mem.uciChunkLen := (congrArg UciMem.uciChunkLen hcore₁ :)
    rw [Operand.addr, Nat.add_zero, ramBytes_mod, hram, hptr, hchunk, hlen]
  have hlog : s₈.log = s.log ++ (es₁ ++ commandWrites (writeCommand s.mem) ++
      .write .uciControl uciCtrlPushCmd :: es₈) := by
    rw [hes₈, hlog₇, hbody', hlog₅, hlog₃, hlog₂, hes₁, hid']
    simp [writeCommand, commandWrites]
  have hwritten : Written s.mem s₈.mem := by
    refine Written.trans (.of_core hcore₁) (Written.trans ?_ (.of_core hpushed.core))
    rw [hmem₇]
    rfl
  have hafter : ∀ fs, Quiet fs → Quiet (es₈ ++ fs) := fun fs hfs => by simp [hpushed.quiet, hfs]
  rcases h with ⟨rfl, rfl, rfl⟩ | ⟨hbusy, c₉, s₉, hcheck, h⟩
  · exact ⟨_, hlog, ⟨.command hidled.still hpushed.quiet, by simp,
      by simp [hpushed.expired_iff.mp rfl]⟩, hwritten⟩
  rw [Bool.not_eq_true] at hbusy
  subst hbusy
  obtain ⟨v, hv, hmem₉, hlog₉⟩ := uciCheckErr_spec hcheck
  have hverdict : ∀ fs, verdict (es₁ ++ commandWrites (writeCommand s.mem) ++
      .write .uciControl uciCtrlPushCmd :: (es₈ ++ .read .uciStatus v :: fs)) = some v :=
    fun fs => verdict_command hidled.quiet hpushed
  rcases h with ⟨rfl, u₁₀, s₁₀, herr, c₁₁, s₁₁, hdrain, rfl, rfl⟩ | ⟨hc₉, h⟩
  · obtain ⟨hlog₁₀, hmem₁₀⟩ := setLastError_spec herr
    obtain ⟨es₁₁, hes₁₁, hquiet₁₁, -, hcore₁₁, -⟩ := drainAck_spec hdrain
    rw [if_pos rfl] at hlog₉
    have hquiet : Quiet (.read .uciStatus v ::
        (.write .uciControl uciCtrlClrErr :: es₁₁)) := by
      have hclr : Quiet [.write .uciControl uciCtrlClrErr] := Calm.quiet (by simp)
      simpa [hquiet₁₁] using hclr
    refine ⟨_, ?_, ⟨.command hidled.still (hafter _ hquiet), by simp, ?_⟩,
      hwritten.trans (.of_core ?_)⟩
    · rw [hes₁₁, hlog₁₀, hlog₉, hlog]
      simp only [List.append_assoc, List.cons_append, List.nil_append]
    · have hnot : ¬ ErrorClear (es₁ ++ commandWrites (writeCommand s.mem) ++
          .write .uciControl uciCtrlPushCmd :: (es₈ ++ .read .uciStatus v ::
            (.write .uciControl uciCtrlClrErr :: es₁₁))) := by
        rintro ⟨w, hw, hzero⟩
        rw [hverdict, Option.some.injEq] at hw
        rw [← hw, ← hv] at hzero
        cases hzero
      exact iff_of_false (by simp) fun h => hnot h.2.1
    · rw [hcore₁₁, hmem₁₀, ← hmem₉]
      rfl
  rw [Bool.not_eq_true] at hc₉
  subst hc₉
  rw [if_neg (by decide)] at hlog₉
  have hrem : s₉.mem.uciSendRem = s.mem.uciSendRem := by
    rw [hmem₉]
    exact (congrArg UciMem.uciSendRem hwritten :)
  obtain ⟨es₁₀, hes₁₀, hquiet₁₀, hwritten₁₀, hiff⟩ :=
    writeReply_spec failWith_fails (by rw [hrem]; exact hmax) h
  rw [hrem] at hiff
  have hquiet : Quiet (.read .uciStatus v :: es₁₀) := by simp [hquiet₁₀]
  have hclear : ErrorClear (es₁ ++ commandWrites (writeCommand s.mem) ++
      .write .uciControl uciCtrlPushCmd :: (es₈ ++ .read .uciStatus v :: es₁₀)) :=
    ⟨v, hverdict _, hv.mp rfl⟩
  have hclean₈ : .expired ∉ es₈ := fun he => by cases hpushed.expired_iff.mpr he
  refine ⟨_, ?_, ⟨.command hidled.still (hafter _ hquiet),
    fun _ => pushed_command hidled.quiet (hafter _ hquiet) _, ?_⟩, ?_⟩
  · rw [hes₁₀, hlog₉, hlog]
    simp only [List.append_assoc, List.cons_append, List.nil_append]
  · rw [hiff, and_iff_right hclear]
    simp [hclean₁, hclean₈, hidled.readsOf_data, hpushed.readsOf_data]
  · rw [hmem₉] at hwritten₁₀
    exact hwritten.trans hwritten₁₀

/-! ## `net_udp_send` -/

/-- The cells after `@fits`: nothing but a connect has happened. -/
theorem openSocket_spec {c : Bool} (h : (openSocket D).Returns s c s') :
    Since s (fun es m =>
      Exchange (connectCommand s.mem.netUdpDest) es ∧
      (s.mem.uciSocketOpen ≠ 0 → c = false ∧ es = [] ∧ m = s.mem) ∧
      (s.mem.uciSocketOpen = 0 → c = false → pushed es = [connectCommand s.mem.netUdpDest] ∧
        ErrorClear es ∧ m.uciSocketId ≠ 0 ∧
        (readsOf .uciRespData es).head? = some m.uciSocketId) ∧
      (c = false ↔ m.uciSocketOpen ≠ 0) ∧
      m.core = { s.mem.core with
        uciSocketId := m.uciSocketId
        uciRespCount := m.uciRespCount
        uciSocketOpen := m.uciSocketOpen } ∧
      (c = true → .expired ∈ es ∨ Refusal es) ∧
      (m.uciSocketOpen = s.mem.uciSocketOpen ∨ m.uciSocketOpen = 1)) s' := by
  simp only [openSocket, Prog.returns_bind, Prog.returns_ite, Prog.returns_pure] at h
  obtain ⟨m, s₀, hcells, h⟩ := h
  obtain ⟨rfl, rfl⟩ := cells_spec hcells
  rcases h with ⟨hopen, rfl, rfl⟩ | ⟨hzero, c₁, s₁, hconn, h⟩
  · exact ⟨[], (List.append_nil _).symm, .silent still_nil, by simp, fun hzero => absurd hzero hopen,
      by simp [hopen], rfl, by simp, Or.inl rfl⟩
  rw [not_not] at hzero
  obtain ⟨es₁, hes₁, hpushed, hrec, hgood, hrefusal⟩ := uciUdpConnect_spec hconn
  have hopen₁ : s₁.mem.uciSocketOpen = 0 := (congrArg UciMem.uciSocketOpen hrec :).trans hzero
  rcases h with ⟨rfl, rfl, rfl⟩ | ⟨hc₁, u₂, s₂, hstore, rfl, rfl⟩
  · refine ⟨es₁, hes₁, hpushed, fun h => absurd hzero h, by simp, by simp [hopen₁], ?_, hrefusal,
      Or.inl (hopen₁.trans hzero.symm)⟩
    rw [hopen₁, ← hzero, hrec]
    rfl
  · rw [Bool.not_eq_true] at hc₁
    obtain ⟨hlog₂, hmem₂, -⟩ := store_spec hstore
    refine ⟨es₁, hlog₂.trans hes₁, hpushed, fun h => absurd hzero h, fun _ _ => ?_, ?_, ?_, by simp,
      Or.inr (by rw [hmem₂])⟩
    · rw [hmem₂]
      exact hgood hc₁
    · rw [hmem₂]
      simp
    · have hcore₂ : s'.mem.core = { s₁.mem.core with uciSocketOpen := 1 } := by
        rw [hmem₂]
        rfl
      rw [hcore₂, hrec, hmem₂]

/-- **A plain send**, over every device: what is refused, what is pushed, and when it succeeds. -/
theorem netUdpSend_plain {ptr : Nat} {c : Bool} (h : (netUdpSend D false ptr).Returns s c s') :
    (s.mem.netUdpSendLen = 0 → c = false ∧ s'.log = s.log) ∧
    (892 < s.mem.netUdpSendLen →
      c = true ∧ s'.mem.netLastError = uciErrSendTooLong ∧ s'.log = s.log ∧ s'.dev = s.dev) ∧
    (0 < s.mem.netUdpSendLen → s.mem.netUdpSendLen ≤ 892 →
      ∃ conn wr, s'.log = s.log ++ (conn ++ wr) ∧
        pushed (conn ++ wr) = pushed conn ++ pushed wr ∧
        (pushed conn = [] ∨ pushed conn = [connectCommand s.mem.netUdpDest]) ∧
        (s.mem.uciSocketOpen ≠ 0 → conn = []) ∧
        (s.mem.uciSocketOpen = 0 → s'.mem.uciSocketOpen ≠ 0 →
          pushed conn = [connectCommand s.mem.netUdpDest] ∧ ErrorClear conn ∧
          (readsOf .uciRespData conn).head? = some s'.mem.uciSocketId) ∧
        (pushed wr = [] ∨ pushed wr = [[uciTargetNetwork, uciCmdSocketWrite, s'.mem.uciSocketId] ++
          ramBytes s.mem.ram ptr s.mem.netUdpSendLen]) ∧
        (c = false → pushed wr ≠ []) ∧
        (c = false ↔
          (s.mem.uciSocketOpen ≠ 0 ∨ s'.mem.uciSocketOpen ≠ 0 ∧ s'.mem.uciSocketId ≠ 0) ∧
          .expired ∉ wr ∧ ErrorClear wr ∧
          (readsOf .uciRespData wr).take 2 = word s.mem.netUdpSendLen)) := by
  simp only [netUdpSend, Prog.returns_bind, Prog.returns_ite, Prog.returns_pure] at h
  obtain ⟨u₁, s₁, hstage, m, s₁', hcells, h⟩ := h
  obtain ⟨hlog₁, hmem₁, hdev₁⟩ := store_spec hstage
  obtain ⟨rfl, rfl⟩ := cells_spec hcells
  have hrem₁ : s₁.mem.uciSendRem = s.mem.netUdpSendLen := by rw [hmem₁]
  have hmax : netUdpSendMax false = 892 := rfl
  rw [hrem₁, hmax] at h
  rcases h with ⟨hzero, rfl, rfl⟩ | ⟨hpos, ⟨hbig, hfail⟩ | ⟨hfits, c₂, s₂, hopen, h⟩⟩
  · exact ⟨fun _ => ⟨rfl, hlog₁⟩, fun h => by omega, fun h => by omega⟩
  · refine ⟨fun h => by omega, fun _ => ?_, fun _ h => by omega⟩
    obtain ⟨u₂, s₂, hset, rfl, rfl⟩ := hfail
    obtain ⟨hlog₂, hmem₂, hdev₂⟩ := store_spec hset
    exact ⟨rfl, by rw [hmem₂], hlog₂.trans hlog₁, hdev₂.trans hdev₁⟩
  refine ⟨fun h => by omega, fun h => by omega, fun _ _ => ?_⟩
  obtain ⟨conn, hconn, hpushed, hkept, hopened, hhas, hcore, -⟩ := openSocket_spec hopen
  have hdest₁ : s₁.mem.netUdpDest = s.mem.netUdpDest := by rw [hmem₁]
  have hopen₁ : s₁.mem.uciSocketOpen = s.mem.uciSocketOpen := by rw [hmem₁]
  rw [hlog₁] at hconn
  rw [hdest₁] at hpushed hopened
  rw [hopen₁] at hkept hopened
  rcases h with ⟨rfl, rfl, rfl⟩ | ⟨hc₂, h⟩
  · have hclosed : ¬ s'.mem.uciSocketOpen ≠ 0 := fun h => by cases hhas.mpr h
    have hzero : s.mem.uciSocketOpen = 0 := by
      by_contra hne
      cases (hkept hne).1
    refine ⟨conn, [], by rw [hconn, List.append_nil], hpushed.pushed_append [],
      hpushed.pushed_cases, fun h => absurd hzero h,
      fun _ h => absurd h hclosed, Or.inl rfl, by simp, iff_of_false (by simp) ?_⟩
    rintro ⟨h | ⟨h, -⟩, -⟩
    · exact h hzero
    · exact hclosed h
  · rw [Bool.not_eq_true] at hc₂
    rcases h with ⟨hcontra, -⟩ | ⟨-, h⟩
    · cases hcontra
    have hlen₂ : s₂.mem.uciChunkLen = s.mem.netUdpSendLen := by
      have hkeep : s₂.mem.uciChunkLen = s₁.mem.uciChunkLen := (congrArg UciMem.uciChunkLen hcore :)
      rw [hkeep, hmem₁]
    have hrem₂ : s₂.mem.uciSendRem = s.mem.netUdpSendLen := by
      have hkeep : s₂.mem.uciSendRem = s₁.mem.uciSendRem := (congrArg UciMem.uciSendRem hcore :)
      rw [hkeep, hmem₁]
    have hptr₂ : s₂.mem.netUdpSendPtr = ptr := by
      have hkeep : s₂.mem.netUdpSendPtr = s₁.mem.netUdpSendPtr := (congrArg UciMem.netUdpSendPtr hcore :)
      rw [hkeep, hmem₁]
    have hram₂ : s₂.mem.ram = s.mem.ram := by
      have hkeep : s₂.mem.ram = s₁.mem.ram := (congrArg UciMem.ram hcore :)
      rw [hkeep, hmem₁]
    obtain ⟨wr, hwr, ⟨hone, hsent, hiff⟩, hwritten⟩ :=
      socketWrite_spec (hlen₂.trans hrem₂.symm) (by omega) h
    have hid : s'.mem.uciSocketId = s₂.mem.uciSocketId := (congrArg UciMem.uciSocketId hwritten :)
    have hopen' : s'.mem.uciSocketOpen = s₂.mem.uciSocketOpen :=
      (congrArg UciMem.uciSocketOpen hwritten :)
    have hcommand : writeCommand s₂.mem =
        [uciTargetNetwork, uciCmdSocketWrite, s'.mem.uciSocketId] ++
          ramBytes s.mem.ram ptr s.mem.netUdpSendLen := by
      rw [writeCommand, hram₂, hptr₂, hrem₂, hid]
    have hsocket : s.mem.uciSocketOpen ≠ 0 ∨
        s'.mem.uciSocketOpen ≠ 0 ∧ s'.mem.uciSocketId ≠ 0 := by
      by_cases hzero : s.mem.uciSocketOpen = 0
      · rw [hopen', hid]
        exact Or.inr ⟨hhas.mp hc₂, (hopened hzero hc₂).2.2.1⟩
      · exact Or.inl hzero
    rw [hcommand] at hone hsent
    rw [hrem₂] at hiff
    refine ⟨conn, wr, by rw [hwr, hconn, List.append_assoc], hpushed.pushed_append wr,
      hpushed.pushed_cases, fun h => (hkept h).2.1, ?_, hone.pushed_cases,
      fun hc => by rw [hsent hc]; simp, by rw [hiff, and_iff_right hsocket]⟩
    intro hzero _
    obtain ⟨hcmd, hclear, -, hhead⟩ := hopened hzero hc₂
    exact ⟨hcmd, hclear, by rw [hid]; exact hhead⟩

/-- A datagram of three bytes on an open socket, to a device that counts three. -/
def sampleWrite : State (List UInt8) where
  mem := { UciMem.start with uciSocketOpen := 1, uciSocketId := 5, netUdpSendLen := 3 }
  dev := [0, 0, 0, 0, 0, 0, 0, 0, 0, 0, 0x80, 3, 0, 0, 0x80, 0, 0, 0, 0, 0, 0, 0]
  log := []

theorem sampleWrite_returns :
    ((netUdpSend scriptDevice false 0xfffe).run 4 sampleWrite).isSome := by decide +kernel

theorem netUdpSend_plain_sample :
    let r := ((netUdpSend scriptDevice false 0xfffe).run 4 sampleWrite).get sampleWrite_returns
    r.1 = false ∧
    ∃ conn wr, r.2.log = conn ++ wr ∧ conn = [] ∧ pushed wr = [[3, 0x11, 5, 0, 0, 0]] ∧
      (readsOf .uciRespData wr).take 2 = [3, 0] := by
  obtain ⟨-, -, hsend⟩ := netUdpSend_plain (Prog.returns_get sampleWrite_returns)
  obtain ⟨conn, wr, hlog, -, -, hconn, -, hone, hsent, hiff⟩ := hsend (by decide) (by decide)
  have hc : (((netUdpSend scriptDevice false 0xfffe).run 4 sampleWrite).get
      sampleWrite_returns).1 = false := by decide +kernel
  have hid : (((netUdpSend scriptDevice false 0xfffe).run 4 sampleWrite).get
      sampleWrite_returns).2.mem.uciSocketId = 5 := by decide +kernel
  rw [hid] at hone
  exact ⟨hc, conn, wr, hlog, hconn (by decide), hone.resolve_left (hsent hc), (hiff.mp hc).2.2.2⟩

end C64WireGuard.Uci
