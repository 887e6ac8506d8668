import Mathlib.Data.List.GetD
import Mathlib.Data.List.TakeWhile
import C64WireGuard.Uci.Termination

/-!
# The lease

`net_dhcp_acquire` asks the device how many interfaces it has, and then the interfaces themselves,
one after the other, up to the first that names its address. All replies go through one buffer that
is never cleared, and all errors through one cell.

**Theorem (`netDhcpAcquire_lease`).** Whatever the device does, unless a wait of a command or a drain
gives up, the commands pushed are the one for the count and one for each interface asked, in order,
and the carry, the address and the error are those of the first interface whose own reply was a whole
record with an address in it (`Selected`).

The proof is an induction over the interfaces asked. Its invariant (`Passed`) is that none of them so
far had an address, so that the cell of the address is still clear.
-/

namespace C64WireGuard.Uci

open Bytes

variable {δ : Type} {D : Device δ} {s s₁ s₂ s₃ s₄ s' : State δ}

/-! ## The answer of an exchange -/

/-- `GET_IFACE_COUNT`. -/
def countCommand : List UInt8 := [uciTargetNetwork, uciCmdGetIfaceCount]

/-- `GET_IPADDR` of an interface. -/
def ipaddrCommand (idx : Nat) : List UInt8 := [uciTargetNetwork, uciCmdGetIpaddr, lo idx]

/-- The bytes of the reply that came before a wait gave up. -/
def replyOf (es : List Access) : List UInt8 := readsOf .uciRespData (es.takeWhile (· ≠ .expired))

example : replyOf [.read .uciRespData 10, .read .uciStatusData 0x30, .read .uciRespData 8, .expired,
    .read .uciRespData 1] = [10, 8] := by decide +kernel

instance (es : List Access) : Decidable (ErrorClear es) :=
  decidable_of_iff ((verdict es).any fun v => v &&& uciStatError = 0) (by
    simp [ErrorClear, Option.any_eq_true])

/-- The command was taken, and its reply is shorter than `max` bytes: the one wait that gave up is
the one for the next of them. -/
def Short (max : Nat) (es : List Access) : Prop :=
  ErrorClear es ∧ (replyOf es).length < max ∧ es.count .expired = 1

/-- A wait of the command or a drain gave up, in an exchange that asks for `max` bytes. -/
def Wedged (max : Nat) (es : List Access) : Prop := .expired ∈ es ∧ ¬ Short max es

instance (max : Nat) (es : List Access) : Decidable (Wedged max es) := by
  unfold Wedged Short
  infer_instance

/-- The interfaces to ask, by the reply to `GET_IFACE_COUNT`: none when that was refused or empty. -/
def ifaceCount (es : List Access) : Nat :=
  if ErrorClear es then min ((replyOf es).headD 0).toNat netDhcpMaxIface else 0

/-- The address in the reply of an interface, when all of its record came. -/
def recordOf (es : List Access) : Option (Bytes 4) :=
  if ErrorClear es ∧ 12 ≤ (replyOf es).length then some (ofList 4 (replyOf es)) else none

theorem replyOf_append {es : List Access} (h : .expired ∉ es) (fs : List Access) :
    replyOf (es ++ fs) = readsOf .uciRespData es ++ replyOf fs := by
  have hall : ∀ e ∈ es, decide (e ≠ .expired) = true := by
    intro e he
    exact decide_eq_true fun heq => h (heq ▸ he)
  rw [replyOf, replyOf, List.takeWhile_append_of_pos hall, readsOf_append]

theorem LastWait.split {es : List Access} (hlast : LastWait es) (h : .expired ∈ es) :
    ∃ fs, es = fs ++ [.expired] ∧ .expired ∉ fs := by
  have hes := List.dropLast_concat_getLast (List.ne_nil_of_mem h)
  rw [← hes, List.mem_append, List.mem_singleton] at h
  refine ⟨es.dropLast, ?_, hlast⟩
  rw [h.resolve_left hlast, hes]

/-- What comes after the mark is not part of the reply. -/
theorem replyOf_expired {es : List Access} (hlast : LastWait es) (h : .expired ∈ es)
    (fs : List Access) : replyOf (es ++ fs) = readsOf .uciRespData es := by
  obtain ⟨es, rfl, hclean⟩ := hlast.split h
  rw [List.append_assoc, replyOf_append hclean, readsOf_append]
  rfl

theorem LastWait.count {es : List Access} (hlast : LastWait es) (h : .expired ∈ es) :
    es.count .expired = 1 := by
  obtain ⟨es, rfl, hclean⟩ := hlast.split h
  rw [List.count_append, List.count_eq_zero_of_not_mem hclean]
  rfl

/-! ## A command that was taken -/

/-- The stretch of an exchange whose command was pushed and taken: `v` is the status read next, and
`rest` is what comes after that. -/
inductive CommandTaken (cmd : List UInt8) (v : UInt8) (rest : List Access) : List Access → Prop
  | mk {before waited : List Access} {m m' : UciMem} (still : Still before)
      (clean : .expired ∉ before)
      (wait : Waited (fun status => status &&& uciStatCmdBusy = 0) m false waited m') :
      CommandTaken cmd v rest (before ++ commandWrites cmd ++
        .write .uciControl uciCtrlPushCmd :: (waited ++ .read .uciStatus v :: rest))

namespace CommandTaken

variable {cmd : List UInt8} {v : UInt8} {rest es : List Access}

theorem exchange (h : CommandTaken cmd v rest es) (hrest : Quiet rest) : Exchange cmd es := by
  obtain ⟨hstill, -, hwait⟩ := h
  exact .command hstill (by simp [hwait.quiet, hrest])

theorem pushed_eq (h : CommandTaken cmd v rest es) (hrest : Quiet rest) : pushed es = [cmd] := by
  obtain ⟨hstill, -, hwait⟩ := h
  exact pushed_command hstill.quiet (by simp [hwait.quiet, hrest]) cmd

theorem errorClear (h : CommandTaken cmd v rest es) : ErrorClear es ↔ v &&& uciStatError = 0 := by
  obtain ⟨hstill, -, hwait⟩ := h
  rw [ErrorClear, verdict_command hstill.quiet hwait]
  simp

/-- Only what comes after the command is read of its reply. -/
theorem split (h : CommandTaken cmd v rest es) :
    ∃ pre, es = pre ++ rest ∧ .expired ∉ pre ∧ readsOf .uciRespData pre = [] := by
  obtain @⟨before, waited, m, m', hstill, hclean, hwait⟩ := h
  refine ⟨before ++ commandWrites cmd ++
    .write .uciControl uciCtrlPushCmd :: (waited ++ [.read .uciStatus v]), by simp, ?_, ?_⟩
  · have hwaited : .expired ∉ waited := fun he => by cases hwait.expired_iff.mpr he
    simp [hclean, hwaited]
  · simp [hstill.data, hwait.readsOf_data.1]

theorem replyOf_eq (h : CommandTaken cmd v rest es) : replyOf es = replyOf rest := by
  obtain ⟨pre, rfl, hclean, hdata⟩ := h.split
  rw [replyOf_append hclean, hdata, List.nil_append]

theorem wedged_iff (h : CommandTaken cmd v rest es) {max : Nat} :
    Wedged max es ↔ .expired ∈ rest ∧
      ¬ (v &&& uciStatError = 0 ∧ (replyOf rest).length < max ∧ rest.count .expired = 1) := by
  rw [Wedged, Short, h.errorClear, h.replyOf_eq]
  obtain ⟨pre, rfl, hclean, -⟩ := h.split
  rw [List.count_append, List.count_eq_zero_of_not_mem hclean, Nat.zero_add, List.mem_append,
    or_iff_right hclean]

end CommandTaken

/-! ## An exchange that is given up -/

theorem Wedged.of_not_clear {max : Nat} {es : List Access} (hexp : .expired ∈ es)
    (hclear : ¬ ErrorClear es) : Wedged max es := ⟨hexp, fun hshort => hclear hshort.1⟩

/-- No command was pushed, or the device was never seen to take it. -/
theorem not_errorClear {es : List Access}
    (h : ∀ v ∈ readsOf .uciStatus (afterPush es), v &&& uciStatCmdBusy ≠ 0) : ¬ ErrorClear es := by
  have hnone : (readsOf .uciStatus (afterPush es)).dropWhile
      (fun v => v &&& uciStatCmdBusy ≠ 0) = [] := by
    rw [List.dropWhile_eq_nil_iff]
    intro v hv
    exact decide_eq_true (h v hv)
  rintro ⟨v, hv, -⟩
  rw [verdict, hnone] at hv
  cases hv

/-- The gate gives up. -/
theorem uciWaitIdle_wedged {cmd : List UInt8} {max : Nat}
    (hidle : (uciWaitIdle D).Returns s true s') :
    Since s (fun es m => Exchange cmd es ∧ Wedged max es ∧ m = s.mem.timedOut) s' := by
  obtain ⟨es, hes, hidled⟩ := uciWaitIdle_spec hidle
  have hafter : afterPush es = [] := by
    have hquiet := afterPush_quiet hidled.quiet []
    rwa [List.append_nil] at hquiet
  refine ⟨es, hes, .silent hidled.still, .of_not_clear (hidled.expired_iff.mp rfl) ?_, ?_⟩
  · refine not_errorClear ?_
    rw [hafter]
    simp
  · generalize hm : s'.mem = m at hidled
    cases hidled
    rfl

variable {cmd : List UInt8}

/-- The wait for the device to take the command gives up. -/
theorem uciPushWait_wedged {max : Nat} (hidle : (uciWaitIdle D).Returns s false s₁)
    (hput : s₂.log = s₁.log ++ commandWrites cmd ∧ s₂.mem = s₁.mem)
    (hpush : (uciPushWait D).Returns s₂ true s') :
    Since s (fun es m => Exchange cmd es ∧ Wedged max es ∧ m = s.mem.timedOut) s' := by
  obtain ⟨es₁, hes₁, hidled⟩ := uciWaitIdle_spec hidle
  obtain ⟨es₃, hes₃, hpushed⟩ := uciPushWait_spec hpush
  rw [hput.2, hidled.mem_eq] at hpushed
  have hexp : .expired ∈ es₃ := hpushed.expired_iff.mp rfl
  have hbusy : ∀ v ∈ readsOf .uciStatus es₃, v &&& uciStatCmdBusy ≠ 0 := by
    generalize s'.mem = m at hpushed
    cases hpushed with
    | expired hpolls hreads =>
      intro v hv
      rw [readsOf_append, readsOf_expired, readsOf_nil, List.append_nil] at hv
      exact of_decide_eq_false (hreads v hv)
  refine ⟨es₁ ++ commandWrites cmd ++ .write .uciControl uciCtrlPushCmd :: es₃, ?_,
    .command hidled.still hpushed.quiet, .of_not_clear (by simp [hexp]) (not_errorClear ?_), ?_⟩
  · rw [hes₃, hput.1, hes₁]
    simp only [List.append_assoc]
  · rwa [afterPush_command hidled.quiet]
  · generalize s'.mem = m at hpushed
    cases hpushed
    rfl

/-! ## An exchange that is not -/

/-- **The command was taken**, and what follows is its answer. -/
theorem uciCheckErr_taken {c : Bool} (hidle : (uciWaitIdle D).Returns s false s₁)
    (hput : s₂.log = s₁.log ++ commandWrites cmd ∧ s₂.mem = s₁.mem)
    (hpush : (uciPushWait D).Returns s₂ false s₃) (hcheck : (uciCheckErr D).Returns s₃ c s₄) :
    s₄.mem = s.mem ∧ ∃ v, (c = false ↔ v &&& uciStatError = 0) ∧
      ∀ rest, ∃ es, s₄.log ++ rest = s.log ++ es ∧
        CommandTaken cmd v ((if c then [.write .uciControl uciCtrlClrErr] else []) ++ rest) es := by
  obtain ⟨es₁, hes₁, hidled⟩ := uciWaitIdle_spec hidle
  obtain ⟨es₃, hes₃, hpushed⟩ := uciPushWait_spec hpush
  obtain ⟨v, hv, hmem₄, hlog₄⟩ := uciCheckErr_spec hcheck
  have hclean : .expired ∉ es₁ := fun he => by cases hidled.expired_iff.mpr he
  refine ⟨?_, v, hv, fun rest => ⟨_, ?_, .mk hidled.still hclean hpushed⟩⟩
  · rw [hmem₄, hpushed.mem_eq, hput.2, hidled.mem_eq]
  · rw [hlog₄, hes₃, hput.1, hes₁]
    simp

theorem netLastError_drained (m : UciMem) (line : List UInt8) :
    (m.drained line).netLastError = m.netLastError := by
  have hfold : ∀ m : UciMem,
      (line.foldl (fun m b => takeStatus b m) m).netLastError = m.netLastError := by
    induction line with
    | nil => exact fun m => rfl
    | cons b line ih =>
      intro m
      rw [List.foldl_cons, ih, takeStatus]
      split <;> rfl
  exact hfold { m with dstIdx := 0 }

/-- A drain that gives up says so. -/
theorem drainAck_lastError {c : Bool} (h : (drainAck D).Returns s c s') :
    s'.mem.netLastError = if c then uciErrWaitTimeout else s.mem.netLastError := by
  obtain ⟨es, hes, -, -, -, hdrained⟩ := drainAck_spec h
  cases c with
  | false => rw [hdrained rfl, netLastError_drained, if_neg Bool.false_ne_true]
  | true =>
    simp only [drainAck, Prog.returns_bind, Prog.returns_ite, Prog.returns_pure] at h
    obtain ⟨c₁, s₁, hresp, ⟨rfl, -, rfl⟩ | ⟨-, c₂, s₂, hstat, h⟩⟩ := h
    · obtain ⟨es₁, -, -, -, -, hm₁⟩ := uciDrainResp_spec hresp
      rw [hm₁]
      rfl
    · rcases h with ⟨rfl, -, rfl⟩ | ⟨-, u, s₃, -, hcontra, -⟩
      · obtain ⟨es₂, -, -, -, -, hm₂⟩ := uciDrainStatus_spec hstat
        rw [hm₂]
        rfl
      · cases hcontra

/-- The command was refused. -/
theorem refused_spec (max : Nat) {c : Bool} (hidle : (uciWaitIdle D).Returns s false s₁)
    (hput : s₂.log = s₁.log ++ commandWrites cmd ∧ s₂.mem = s₁.mem)
    (hpush : (uciPushWait D).Returns s₂ false s₃) (hcheck : (uciCheckErr D).Returns s₃ true s₄)
    (hdrain : (drainAck D).Returns s₄ c s') :
    Since s (fun es m => Exchange cmd es ∧ pushed es = [cmd] ∧ ¬ ErrorClear es ∧
      (Wedged max es ↔ c = true) ∧ m.core = s.mem.core ∧
      m.netLastError = if c then uciErrWaitTimeout else s.mem.netLastError) s' := by
  obtain ⟨hmem₄, v, hv, htaken⟩ := uciCheckErr_taken hidle hput hpush hcheck
  obtain ⟨es, hes, hquiet, hexp, hcore, -⟩ := drainAck_spec hdrain
  have herror := drainAck_lastError hdrain
  obtain ⟨fs, hfs, htaken⟩ := htaken es
  have hset : ¬ v &&& uciStatError = 0 := fun hzero => by cases hv.mpr hzero
  have hclr : Access.write .uciControl uciCtrlClrErr ≠ .expired := by decide
  have hquiet' : Quiet ([.write .uciControl uciCtrlClrErr] ++ es) :=
    quiet_append.mpr ⟨Calm.quiet (by simp), hquiet⟩
  rw [if_pos rfl] at htaken
  refine ⟨fs, by rw [hes, hfs], htaken.exchange hquiet', htaken.pushed_eq hquiet', ?_, ?_, ?_, ?_⟩
  · rwa [htaken.errorClear]
  · rw [htaken.wedged_iff, hexp]
    simp [hset]
  · rw [hcore, hmem₄]
  · rw [herror, hmem₄]

/-- What is stored of a reply, byte by byte. -/
theorem byte_storeFrom (bs : List UInt8) (i j : Nat) (m : UciMem) :
    byte (storeFrom (fun i b m => { m with uciIpaddrResp := put m.uciIpaddrResp i b }) i bs
        m).uciIpaddrResp j =
      if i ≤ j ∧ j < i + bs.length ∧ j < 12 then bs.getD (j - i) 0 else byte m.uciIpaddrResp j := by
  induction bs generalizing i m with
  | nil =>
    rw [if_neg (by simp only [List.length_nil]; omega)]
    rfl
  | cons b bs ih =>
    rw [storeFrom, ih, List.length_cons]
    by_cases hin : i + 1 ≤ j ∧ j < i + 1 + bs.length ∧ j < 12
    · have hsub : j - i = (j - (i + 1)) + 1 := by omega
      rw [if_pos hin, if_pos (by omega), hsub, List.getD_cons_succ]
    · rw [if_neg hin]
      dsimp only
      rw [byte_put]
      by_cases hfirst : j = i ∧ j < 12
      · obtain ⟨rfl, hj⟩ := hfirst
        rw [if_pos ⟨rfl, hj⟩, if_pos (by omega), Nat.sub_self, List.getD_cons_zero]
      · rw [if_neg hfirst, if_neg (by omega)]

theorem storeFrom_lease (bs : List UInt8) (i : Nat) (m : UciMem) :
    let m' := storeFrom (fun i b m => { m with uciIpaddrResp := put m.uciIpaddrResp i b }) i bs m
    m'.netLocalIp = m.netLocalIp ∧ m'.netLastError = m.netLastError := by
  induction bs generalizing i m with
  | nil => exact ⟨rfl, rfl⟩
  | cons b bs ih => exact ih (i + 1) { m with uciIpaddrResp := put m.uciIpaddrResp i b }

/-- **`@read_resp`** counts the bytes of this reply, and as many cells of the buffer hold them. It
gives up when a drain does. -/
theorem readResp_spec {max : Nat} {c : Bool} (hmax : max ≤ 12)
    (h : (readResp D max).Returns s c s') :
    Since s (fun es m => Quiet es ∧
      (c = true ↔ .expired ∈ es ∧ ¬ ((replyOf es).length < max ∧ es.count .expired = 1)) ∧
      m.netLocalIp = s.mem.netLocalIp ∧
      (m.netLastError = if c then uciErrWaitTimeout else s.mem.netLastError) ∧
      m.uciRespCount = min max (replyOf es).length ∧
      ∀ i < m.uciRespCount, byte m.uciIpaddrResp i = (replyOf es).getD i 0) s' := by
  obtain ⟨u, s₁, hread, hdrain⟩ := Prog.returns_bind.mp h
  obtain ⟨es₁, hes₁, hquiet₁, -, hlast, hlen, hexp₁, hmem₁⟩ := uciReadRespBytes_spec hread
  obtain ⟨es₂, hes₂, hquiet₂, hexp₂, hcore₂, -⟩ := drainAck_spec hdrain
  have herror := drainAck_lastError hdrain
  generalize hbs : readsOf .uciRespData es₁ = bs at hlen hexp₁ hmem₁
  have hcount : s'.mem.uciRespCount = s₁.mem.uciRespCount := (congrArg UciMem.uciRespCount hcore₂ :)
  have hresp : s'.mem.uciIpaddrResp = s₁.mem.uciIpaddrResp :=
    (congrArg UciMem.uciIpaddrResp hcore₂ :)
  have hip : s'.mem.netLocalIp = s₁.mem.netLocalIp := (congrArg UciMem.netLocalIp hcore₂ :)
  obtain ⟨hip₁, herror₁⟩ := storeFrom_lease bs 0 s.mem
  -- The bytes read one by one are the front of the reply, and all of it when they are too few.
  obtain ⟨tail, hreply, hshort⟩ : ∃ tail, replyOf (es₁ ++ es₂) = bs ++ tail ∧
      (bs.length < max → tail = []) := by
    by_cases hexp : .expired ∈ es₁
    · exact ⟨[], by rw [replyOf_expired hlast hexp, hbs, List.append_nil], fun _ => rfl⟩
    · exact ⟨replyOf es₂, by rw [replyOf_append hexp, hbs], fun hlt => absurd (hexp₁.mp hlt) hexp⟩
  have hmin : min max (replyOf (es₁ ++ es₂)).length = bs.length := by
    rw [hreply, List.length_append]
    by_cases hlt : bs.length < max
    · rw [hshort hlt, List.length_nil]
      omega
    · omega
  refine ⟨es₁ ++ es₂, by rw [hes₂, hes₁, List.append_assoc], by simp [hquiet₁, hquiet₂], ?_, ?_, ?_,
    ?_, ?_⟩
  · rw [hexp₂, List.mem_append, List.count_append]
    by_cases hlt : bs.length < max
    · rw [hlast.count (hexp₁.mp hlt), hreply, hshort hlt, List.append_nil,
        ← List.count_pos_iff (l := es₂)]
      simp only [hexp₁.mp hlt, true_or, true_and, hlt]
      omega
    · have hlong : ¬ (replyOf (es₁ ++ es₂)).length < max := by omega
      have hclean : .expired ∉ es₁ := fun he => hlt (hexp₁.mpr he)
      simp [hlong, hclean]
  · rw [hip, hmem₁]
    exact hip₁
  · rw [herror, hmem₁]
    exact congrArg (fun e => if c then uciErrWaitTimeout else e) herror₁
  · rw [hcount, hmem₁, hmin]
  · intro i hi
    rw [hcount, hmem₁] at hi
    rw [hresp, hmem₁, hreply, List.getD_append _ _ _ _ hi]
    refine (byte_storeFrom bs 0 i s.mem).trans (if_pos ?_)
    dsimp only at hi
    omega

/-- The command was accepted, and its reply is read. -/
theorem answered_spec {max : Nat} {c : Bool} (hmax : max ≤ 12)
    (hidle : (uciWaitIdle D).Returns s false s₁)
    (hput : s₂.log = s₁.log ++ commandWrites cmd ∧ s₂.mem = s₁.mem)
    (hpush : (uciPushWait D).Returns s₂ false s₃) (hcheck : (uciCheckErr D).Returns s₃ false s₄)
    (hread : (readResp D max).Returns s₄ c s') :
    Since s (fun es m => Exchange cmd es ∧ pushed es = [cmd] ∧ ErrorClear es ∧
      (Wedged max es ↔ c = true) ∧ m.netLocalIp = s.mem.netLocalIp ∧
      (m.netLastError = if c then uciErrWaitTimeout else s.mem.netLastError) ∧
      m.uciRespCount = min max (replyOf es).length ∧
      ∀ i < m.uciRespCount, byte m.uciIpaddrResp i = (replyOf es).getD i 0) s' := by
  obtain ⟨hmem₄, v, hv, htaken⟩ := uciCheckErr_taken hidle hput hpush hcheck
  obtain ⟨es, hes, hquiet, hwedged, hanswer⟩ := readResp_spec hmax hread
  obtain ⟨fs, hfs, htaken⟩ := htaken es
  rw [if_neg Bool.false_ne_true, List.nil_append] at htaken
  refine ⟨fs, by rw [hes, hfs], htaken.exchange hquiet, htaken.pushed_eq hquiet,
    htaken.errorClear.mpr (hv.mp rfl), ?_, ?_⟩
  · rw [htaken.wedged_iff, hwedged, and_iff_right (hv.mp rfl)]
  · rwa [htaken.replyOf_eq, ← hmem₄]

/-! ## One interface -/

/-- **What asking interface `idx` of `n` comes to**: what the loop does next, and what it leaves in
the cells of the address and of the error. -/
inductive Probed (n idx : Nat) (m : UciMem) (es : List Access) (m' : UciMem) :
    Nat ⊕ Bool → Prop
  | wedged (wedge : Wedged 12 es) (ip : m'.netLocalIp = m.netLocalIp)
      (error : m'.netLastError = uciErrWaitTimeout) : Probed n idx m es m' (.inr true)
  | silent (sound : ¬ Wedged 12 es) (asked : pushed es = [ipaddrCommand idx])
      (record : recordOf es = none) (ip : m'.netLocalIp = m.netLocalIp)
      (error : m'.netLastError = m.netLastError) : Probed n idx m es m' (advance n idx)
  | down (sound : ¬ Wedged 12 es) (asked : pushed es = [ipaddrCommand idx])
      (record : recordOf es = some (zero 4)) (ip : m'.netLocalIp = zero 4)
      (error : m'.netLastError = uciErrNoIp) : Probed n idx m es m' (advance n idx)
  | up (sound : ¬ Wedged 12 es) (asked : pushed es = [ipaddrCommand idx])
      (record : recordOf es = some m'.netLocalIp) (ip_ne : m'.netLocalIp ≠ zero 4)
      (error : m'.netLastError = 0) : Probed n idx m es m' (.inr false)

/-- The commands that `@next_iface` writes. -/
theorem writes_ipaddr {idx : Nat} {u₁ u₂ u₃ : Unit} (h₁ : (uciBeginCmd D uciTargetNetwork).Returns s u₁ s₁)
    (h₂ : (uciPutByte D uciCmdGetIpaddr).Returns s₁ u₂ s₂)
    (h₃ : (uciPutByte D (lo idx)).Returns s₂ u₃ s₃) :
    s₃.log = s.log ++ commandWrites (ipaddrCommand idx) ∧ s₃.mem = s.mem := by
  obtain ⟨hlog₁, hmem₁⟩ := sta_spec h₁
  obtain ⟨hlog₂, hmem₂⟩ := sta_spec h₂
  obtain ⟨hlog₃, hmem₃⟩ := sta_spec h₃
  refine ⟨?_, by rw [hmem₃, hmem₂, hmem₁]⟩
  rw [hlog₃, hlog₂, hlog₁]
  simp [commandWrites, ipaddrCommand]

theorem nextIface_spec {n idx : Nat} {r : Nat ⊕ Bool} (h : (nextIface D n idx).Returns s r s') :
    Since s (fun es m => Exchange (ipaddrCommand idx) es ∧ Probed n idx s.mem es m r) s' := by
  obtain ⟨c₁, s₁, hidle, h⟩ := Prog.returns_bind.mp h
  rcases Prog.returns_ite.mp h with ⟨rfl, h⟩ | ⟨hc₁, h⟩
  · obtain ⟨rfl, rfl⟩ := Prog.returns_pure.mp h
    obtain ⟨es, hes, hexchange, hwedged, hm⟩ := uciWaitIdle_wedged hidle
    exact ⟨es, hes, hexchange, .wedged hwedged (by rw [hm]; rfl) (by rw [hm]; rfl)⟩
  rw [Bool.not_eq_true] at hc₁
  subst hc₁
  obtain ⟨u₂, s₂, hput₂, h⟩ := Prog.returns_bind.mp h
  obtain ⟨u₃, s₃, hput₃, h⟩ := Prog.returns_bind.mp h
  obtain ⟨u₄, s₄, hput₄, h⟩ := Prog.returns_bind.mp h
  obtain ⟨c₅, s₅, hpush, h⟩ := Prog.returns_bind.mp h
  have hput := writes_ipaddr hput₂ hput₃ hput₄
  rcases Prog.returns_ite.mp h with ⟨rfl, h⟩ | ⟨hc₅, h⟩
  · obtain ⟨rfl, rfl⟩ := Prog.returns_pure.mp h
    obtain ⟨es, hes, hexchange, hwedged, hm⟩ := uciPushWait_wedged hidle hput hpush
    exact ⟨es, hes, hexchange, .wedged hwedged (by rw [hm]; rfl) (by rw [hm]; rfl)⟩
  rw [Bool.not_eq_true] at hc₅
  subst hc₅
  obtain ⟨c₆, s₆, hcheck, h⟩ := Prog.returns_bind.mp h
  rcases Prog.returns_ite.mp h with ⟨rfl, h⟩ | ⟨hc₆, h⟩
  · -- The interface is refused.
    obtain ⟨c₇, s₇, hdrain, h⟩ := Prog.returns_bind.mp h
    obtain ⟨es, hes, hexchange, hasked, hset, hwedged, hcore, herror⟩ :=
      refused_spec 12 hidle hput hpush hcheck hdrain
    have hip : s₇.mem.netLocalIp = s.mem.netLocalIp := (congrArg UciMem.netLocalIp hcore :)
    rcases Prog.returns_ite.mp h with ⟨rfl, h⟩ | ⟨hc₇, h⟩
    · obtain ⟨rfl, rfl⟩ := Prog.returns_pure.mp h
      exact ⟨es, hes, hexchange, .wedged (hwedged.mpr rfl) hip herror⟩
    · obtain ⟨rfl, rfl⟩ := Prog.returns_pure.mp h
      rw [if_neg hc₇] at herror
      refine ⟨es, hes, hexchange, .silent (mt hwedged.mp hc₇) hasked ?_ hip herror⟩
      rw [recordOf, if_neg fun hclear => hset hclear.1]
  rw [Bool.not_eq_true] at hc₆
  subst hc₆
  obtain ⟨c₇, s₇, hread, h⟩ := Prog.returns_bind.mp h
  obtain ⟨es, hes, hexchange, hasked, hclear, hwedged, hip, herror, hcount, hbytes⟩ :=
    answered_spec (Nat.le_refl 12) hidle hput hpush hcheck hread
  rcases Prog.returns_ite.mp h with ⟨rfl, h⟩ | ⟨hc₇, h⟩
  · obtain ⟨rfl, rfl⟩ := Prog.returns_pure.mp h
    exact ⟨es, hes, hexchange, .wedged (hwedged.mpr rfl) hip herror⟩
  have hsound : ¬ Wedged 12 es := mt hwedged.mp hc₇
  rw [if_neg hc₇] at herror
  obtain ⟨m, s₈, hcells, h⟩ := Prog.returns_bind.mp h
  obtain ⟨rfl, rfl⟩ := cells_spec hcells
  rw [hcount] at h hbytes
  rcases Prog.returns_ite.mp h with ⟨hshort, h⟩ | ⟨hfull, h⟩
  · -- The record is not whole.
    obtain ⟨rfl, rfl⟩ := Prog.returns_pure.mp h
    refine ⟨es, hes, hexchange, .silent hsound hasked ?_ hip herror⟩
    rw [recordOf, if_neg fun hrecord => hshort (Nat.min_eq_left hrecord.2)]
  · have hlen : 12 ≤ (replyOf es).length := by omega
    have hrecord : recordOf es = some (slice s₇.mem.uciIpaddrResp 0 4) := by
      rw [recordOf, if_pos ⟨hclear, hlen⟩]
      refine congrArg some (ext_byte fun i hi => ?_)
      rw [byte_ofList, byte_slice, if_pos hi, if_pos hi, Nat.zero_add, hbytes i (by omega)]
    obtain ⟨u₈, s₈, hcopy, h⟩ := Prog.returns_bind.mp h
    obtain ⟨hlog₈, hmem₈, -⟩ := store_spec hcopy
    obtain ⟨m, s₉, hcells, h⟩ := Prog.returns_bind.mp h
    obtain ⟨rfl, rfl⟩ := cells_spec hcells
    have hip₈ : s₈.mem.netLocalIp = slice s₇.mem.uciIpaddrResp 0 4 := by rw [hmem₈]
    rw [← hip₈] at hrecord
    rcases Prog.returns_ite.mp h with ⟨hne, h⟩ | ⟨hzero, h⟩
    · obtain ⟨u₉, s₉, hset, h⟩ := Prog.returns_bind.mp h
      obtain ⟨hlog₉, hmem₉⟩ := setLastError_spec hset
      obtain ⟨rfl, rfl⟩ := Prog.returns_pure.mp h
      have hip₉ : s'.mem.netLocalIp = s₈.mem.netLocalIp := by rw [hmem₉]
      rw [← hip₉] at hne hrecord
      exact ⟨es, by rw [hlog₉, hlog₈, hes], hexchange,
        .up hsound hasked hrecord hne (by rw [hmem₉])⟩
    · obtain ⟨u₉, s₉, hset, h⟩ := Prog.returns_bind.mp h
      obtain ⟨hlog₉, hmem₉⟩ := setLastError_spec hset
      obtain ⟨rfl, rfl⟩ := Prog.returns_pure.mp h
      rw [not_not] at hzero
      rw [hzero] at hrecord
      exact ⟨es, by rw [hlog₉, hlog₈, hes], hexchange,
        .down hsound hasked hrecord (by rw [hmem₉]; exact hzero) (by rw [hmem₉])⟩

/-! ## The interfaces, one after the other -/

/-- Nothing, or the address 0.0.0.0. -/
def Unleased (answer : Option (Bytes 4)) : Prop := ∀ ip ∈ answer, ip = zero 4

/-- The error when no answer is a lease: it matters whether there was one at all. -/
def noLease (answers : List (Option (Bytes 4))) : UInt8 :=
  if answers.any Option.isSome then uciErrNoIp else uciErrCmdFailed

/-- **The choice among `n` interfaces**, by the answers of those asked: the first that has an address
is the last one asked, and without one all are asked. -/
inductive Selected (n : Nat) : List (Option (Bytes 4)) → Bool → UciMem → Prop
  | found {earlier : List (Option (Bytes 4))} {m : UciMem} (room : earlier.length < n)
      (passed : ∀ a ∈ earlier, Unleased a) (ip_ne : m.netLocalIp ≠ zero 4)
      (error : m.netLastError = 0) : Selected n (earlier ++ [some m.netLocalIp]) false m
  | none {answers : List (Option (Bytes 4))} {m : UciMem} (all : answers.length = n)
      (passed : ∀ a ∈ answers, Unleased a) (ip : m.netLocalIp = zero 4)
      (error : m.netLastError = noLease answers) : Selected n answers true m

/-- Each stretch is the exchange with the interface of its number. -/
def Asked (probes : List (List Access)) : Prop :=
  ∀ i es, probes[i]? = some es → Exchange (ipaddrCommand i) es

/-- Each stretch pushes the command for the interface of its number. -/
def InOrder (probes : List (List Access)) : Prop :=
  probes.map pushed = (List.range probes.length).map fun i => [ipaddrCommand i]

theorem Asked.concat {probes : List (List Access)} {es : List Access} (h : Asked probes)
    (hes : Exchange (ipaddrCommand probes.length) es) : Asked (probes ++ [es]) := by
  intro i es' hi
  rw [List.getElem?_append] at hi
  split at hi
  · exact h i es' hi
  · rw [List.getElem?_singleton] at hi
    split at hi
    · cases hi
      have hlast : i = probes.length := by omega
      exact hlast ▸ hes
    · cases hi

theorem InOrder.concat {probes : List (List Access)} {es : List Access} (h : InOrder probes)
    (hes : pushed es = [ipaddrCommand probes.length]) : InOrder (probes ++ [es]) := by
  unfold InOrder at *
  rw [List.map_append, h, List.length_append, List.length_singleton, List.range_succ,
    List.map_append, List.map_singleton, List.map_singleton, hes]

/-- The interfaces asked so far had no address. -/
structure NoneYet (s : State δ) (probes : List (List Access)) (t : State δ) : Prop where
  log : t.log = s.log ++ probes.flatten
  asked : Asked probes
  inOrder : InOrder probes
  sound : ∀ es ∈ probes, ¬ Wedged 12 es
  unleased : ∀ a ∈ probes.map recordOf, Unleased a
  ip : t.mem.netLocalIp = zero 4
  error : t.mem.netLastError = noLease (probes.map recordOf)

/-- One interface more that had no address. -/
theorem NoneYet.concat {probes : List (List Access)} {es : List Access} {t t' : State δ}
    (h : NoneYet s probes t) (hlog : t'.log = t.log ++ es)
    (hexchange : Exchange (ipaddrCommand probes.length) es)
    (hasked : pushed es = [ipaddrCommand probes.length]) (hsound : ¬ Wedged 12 es)
    (hunleased : Unleased (recordOf es)) (hip : t'.mem.netLocalIp = zero 4)
    (herror : t'.mem.netLastError = noLease (probes.map recordOf ++ [recordOf es])) :
    NoneYet s (probes ++ [es]) t' where
  log := by
    rw [hlog, h.log, List.append_assoc, List.flatten_append, List.flatten_singleton]
  asked := h.asked.concat hexchange
  inOrder := h.inOrder.concat hasked
  sound := by
    intro es' hes
    rcases List.mem_append.mp hes with hes | hes
    · exact h.sound es' hes
    · exact List.mem_singleton.mp hes ▸ hsound
  unleased := by
    intro a ha
    rw [List.map_append, List.map_singleton] at ha
    rcases List.mem_append.mp ha with ha | ha
    · exact h.unleased a ha
    · exact List.mem_singleton.mp ha ▸ hunleased
  ip := hip
  error := by rw [herror, List.map_append, List.map_singleton]

/-- **A step of the loop**: the interface asked next is passed over, or it ends the loop. -/
theorem NoneYet.probe {n : Nat} {r : Nat ⊕ Bool} {probes : List (List Access)} {t t' : State δ}
    (h : NoneYet s probes t) (hround : (nextIface D n probes.length).Returns t r t') :
    ∃ es, t'.log = t.log ++ es ∧ Exchange (ipaddrCommand probes.length) es ∧
      (r = advance n probes.length ∧ NoneYet s (probes ++ [es]) t' ∨
        r = .inr true ∧ Wedged 12 es ∧ t'.mem.netLocalIp = zero 4 ∧
          t'.mem.netLastError = uciErrWaitTimeout ∨
        r = .inr false ∧ ¬ Wedged 12 es ∧ pushed es = [ipaddrCommand probes.length] ∧
          recordOf es = some t'.mem.netLocalIp ∧ t'.mem.netLocalIp ≠ zero 4 ∧
          t'.mem.netLastError = 0) := by
  obtain ⟨es, hes, hexchange, hprobed⟩ := nextIface_spec hround
  refine ⟨es, hes, hexchange, ?_⟩
  cases hprobed with
  | wedged hwedged hip herror => exact Or.inr (Or.inl ⟨rfl, hwedged, hip.trans h.ip, herror⟩)
  | up hsound hasked hrecord hne herror =>
    exact Or.inr (Or.inr ⟨rfl, hsound, hasked, hrecord, hne, herror⟩)
  | silent hsound hasked hrecord hip herror =>
    refine Or.inl ⟨rfl, h.concat hes hexchange hasked hsound ?_ (hip.trans h.ip) ?_⟩
    · rw [hrecord]
      rintro ip ⟨⟩
    · rw [herror, h.error, hrecord]
      simp [noLease]
  | down hsound hasked hrecord hip herror =>
    refine Or.inl ⟨rfl, h.concat hes hexchange hasked hsound ?_ hip ?_⟩
    · rw [hrecord]
      rintro ip ⟨⟩
      rfl
    · rw [herror, hrecord]
      simp [noLease]

/-- What the interfaces asked come to, by the carry. -/
structure Chosen (s : State δ) (n : Nat) (probes : List (List Access)) (c : Bool) (t : State δ) :
    Prop where
  log : t.log = s.log ++ probes.flatten
  asked : Asked probes
  gaveUp : (∃ es ∈ probes, Wedged 12 es) →
    c = true ∧ t.mem.netLocalIp = zero 4 ∧ t.mem.netLastError = uciErrWaitTimeout
  selected : (∀ es ∈ probes, ¬ Wedged 12 es) →
    InOrder probes ∧ Selected n (probes.map recordOf) c t.mem

/-- All interfaces were passed over. -/
theorem NoneYet.chosen {n : Nat} {probes : List (List Access)} {t : State δ}
    (h : NoneYet s probes t) (hn : probes.length = n) : Chosen s n probes true t where
  log := h.log
  asked := h.asked
  gaveUp := fun ⟨es, hes, hwedged⟩ => absurd hwedged (h.sound es hes)
  selected := fun _ => ⟨h.inOrder, .none (by simpa using hn) h.unleased h.ip h.error⟩

/-- The last round of the loop. -/
theorem NoneYet.done {n : Nat} {c : Bool} {probes : List (List Access)} {t t' : State δ}
    (h : NoneYet s probes t) (hn : probes.length < n)
    (hround : (nextIface D n probes.length).Returns t (.inr c) t') :
    ∃ probes', Chosen s n probes' c t' := by
  obtain ⟨es, hes, hexchange, hprobed⟩ := h.probe hround
  have hlog : t'.log = s.log ++ (probes ++ [es]).flatten := by
    rw [hes, h.log, List.append_assoc, List.flatten_append, List.flatten_singleton]
  refine ⟨probes ++ [es], ?_⟩
  rcases hprobed with ⟨hr, hnone⟩ | ⟨hr, hwedged, hip, herror⟩ |
    ⟨hr, hsound, hasked, hrecord, hne, herror⟩
  · obtain ⟨hle, rfl⟩ := advance_eq_inr hr
    refine hnone.chosen ?_
    rw [List.length_append, List.length_singleton]
    omega
  · cases hr
    exact
      { log := hlog
        asked := h.asked.concat hexchange
        gaveUp := fun _ => ⟨rfl, hip, herror⟩
        selected := fun hsound => absurd hwedged (hsound es (by simp)) }
  · cases hr
    exact
      { log := hlog
        asked := h.asked.concat hexchange
        gaveUp := by
          rintro ⟨es', hes', hwedged⟩
          rw [List.mem_append, List.mem_singleton] at hes'
          rcases hes' with hes' | rfl
          · exact absurd hwedged (h.sound es' hes')
          · exact absurd hwedged hsound
        selected := fun _ => by
          refine ⟨h.inOrder.concat hasked, ?_⟩
          rw [List.map_append, List.map_singleton, hrecord]
          exact .found (by simpa using hn) h.unleased hne herror }

/-- **The loop over the interfaces**. -/
theorem loop_nextIface_spec {n : Nat} {c : Bool} (hn : 0 < n) (hip : s.mem.netLocalIp = zero 4)
    (herror : s.mem.netLastError = uciErrCmdFailed)
    (h : (Prog.loop (nextIface D n) 0).Returns s c s') : ∃ probes, Chosen s n probes c s' := by
  refine h.loop_rule
    (I := fun idx t => idx < n ∧ ∃ probes, idx = probes.length ∧ NoneYet s probes t)
    (Q := fun c t => ∃ probes, Chosen s n probes c t) ?_ ?_ ⟨hn, [], rfl, ?_⟩
  · rintro idx t j t' ⟨-, probes, rfl, hnone⟩ hround
    obtain ⟨es, -, -, ⟨hr, hnone⟩ | ⟨hr, -⟩ | ⟨hr, -⟩⟩ := hnone.probe hround
    · obtain ⟨hlt, rfl⟩ := advance_eq_inl hr
      exact ⟨hlt, probes ++ [es], by simp, hnone⟩
    · cases hr
    · cases hr
  · rintro idx t c t' ⟨hlt, probes, rfl, hnone⟩ hround
    exact hnone.done hlt hround
  · exact
      { log := (List.append_nil _).symm
        asked := fun i es hi => by cases hi
        inOrder := rfl
        sound := fun es hes => by cases hes
        unleased := fun a ha => by cases ha
        ip := hip
        error := herror }

/-! ## The whole of `net_dhcp_acquire` -/

/-- What a call comes to, by the exchange for the count and those with the interfaces. -/
structure Acquired (s : State δ) (count : List Access) (probes : List (List Access)) (c : Bool)
    (t : State δ) : Prop where
  log : t.log = s.log ++ (count ++ probes.flatten)
  counted : Exchange countCommand count
  asked : Asked probes
  gaveUp : Wedged 1 count ∨ (∃ es ∈ probes, Wedged 12 es) →
    c = true ∧ t.mem.netLocalIp = zero 4 ∧ t.mem.netLastError = uciErrWaitTimeout
  selected : ¬ Wedged 1 count → (∀ es ∈ probes, ¬ Wedged 12 es) →
    pushed (count ++ probes.flatten) = countCommand :: (List.range probes.length).map ipaddrCommand ∧
      Selected (ifaceCount count) (probes.map recordOf) c t.mem

/-- The count is not to be had. -/
theorem Acquired.of_wedged {count : List Access} {t : State δ} (hlog : t.log = s.log ++ count)
    (hcounted : Exchange countCommand count) (hwedged : Wedged 1 count)
    (hip : t.mem.netLocalIp = zero 4) (herror : t.mem.netLastError = uciErrWaitTimeout) :
    Acquired s count [] true t where
  log := by rw [hlog, List.flatten_nil, List.append_nil]
  counted := hcounted
  asked := fun i es hi => by cases hi
  gaveUp := fun _ => ⟨rfl, hip, herror⟩
  selected := fun hsound => absurd hwedged hsound

/-- There is no interface to ask. -/
theorem Acquired.of_zero {count : List Access} {t : State δ} (hlog : t.log = s.log ++ count)
    (hcounted : Exchange countCommand count) (hpushed : pushed count = [countCommand])
    (hsound : ¬ Wedged 1 count) (hzero : ifaceCount count = 0) (hip : t.mem.netLocalIp = zero 4)
    (herror : t.mem.netLastError = uciErrCmdFailed) : Acquired s count [] true t where
  log := by rw [hlog, List.flatten_nil, List.append_nil]
  counted := hcounted
  asked := fun i es hi => by cases hi
  gaveUp := by
    rintro (hwedged | ⟨es, hes, -⟩)
    · exact absurd hwedged hsound
    · cases hes
  selected := fun _ _ => by
    rw [List.flatten_nil, List.append_nil, hpushed, hzero]
    exact ⟨rfl, .none rfl (fun a ha => by cases ha) hip herror⟩

/-- The interfaces counted are asked. -/
theorem Acquired.of_chosen {count : List Access} {n : Nat} {probes : List (List Access)} {c : Bool}
    {t t' : State δ} (hlog : t.log = s.log ++ count) (hcounted : Exchange countCommand count)
    (hpushed : pushed count = [countCommand]) (hsound : ¬ Wedged 1 count)
    (hn : ifaceCount count = n) (h : Chosen t n probes c t') : Acquired s count probes c t' where
  log := by rw [h.log, hlog, List.append_assoc]
  counted := hcounted
  asked := h.asked
  gaveUp := fun hwedged => h.gaveUp (hwedged.resolve_left hsound)
  selected := by
    intro _ hprobes
    obtain ⟨hinOrder, hselected⟩ := h.selected hprobes
    have hflat : pushed probes.flatten = (List.range probes.length).map ipaddrCommand := by
      rw [pushed_flatten, hinOrder]
      · rw [List.flatten_eq_flatMap, List.flatMap_map, List.map_eq_flatMap]
        rfl
      · intro es hes
        obtain ⟨i, hi, rfl⟩ := List.mem_iff_getElem.mp hes
        exact ⟨_, h.asked i _ (List.getElem?_eq_getElem hi)⟩
    rw [hcounted.pushed_append, hpushed, hflat, hn]
    exact ⟨rfl, hselected⟩

theorem netDhcpAcquire_acquired {c : Bool} (h : (netDhcpAcquire D).Returns s c s') :
    ∃ count probes, Acquired s count probes c s' := by
  obtain ⟨u₀, s₀, hclear, h⟩ := Prog.returns_bind.mp h
  obtain ⟨hlog₀, hmem₀, -⟩ := store_spec hclear
  have hip₀ : s₀.mem.netLocalIp = zero 4 := by rw [hmem₀]
  have herror₀ : s₀.mem.netLastError = uciErrCmdFailed := by rw [hmem₀]
  obtain ⟨c₁, s₁, hidle, h⟩ := Prog.returns_bind.mp h
  rcases Prog.returns_ite.mp h with ⟨rfl, h⟩ | ⟨hc₁, h⟩
  · obtain ⟨rfl, rfl⟩ := Prog.returns_pure.mp h
    obtain ⟨es, hes, hexchange, hwedged, hm⟩ := uciWaitIdle_wedged hidle
    exact ⟨es, [], .of_wedged (by rw [hes, hlog₀]) hexchange hwedged (by rw [hm]; exact hip₀)
      (by rw [hm]; rfl)⟩
  rw [Bool.not_eq_true] at hc₁
  subst hc₁
  obtain ⟨u₂, s₂, hput₂, h⟩ := Prog.returns_bind.mp h
  obtain ⟨u₃, s₃, hput₃, h⟩ := Prog.returns_bind.mp h
  obtain ⟨c₄, s₄, hpush, h⟩ := Prog.returns_bind.mp h
  obtain ⟨hlog₂, hmem₂⟩ := sta_spec hput₂
  obtain ⟨hlog₃, hmem₃⟩ := sta_spec hput₃
  have hput : s₃.log = s₁.log ++ commandWrites countCommand ∧ s₃.mem = s₁.mem := by
    refine ⟨?_, by rw [hmem₃, hmem₂]⟩
    rw [hlog₃, hlog₂]
    simp [commandWrites, countCommand]
  rcases Prog.returns_ite.mp h with ⟨rfl, h⟩ | ⟨hc₄, h⟩
  · obtain ⟨rfl, rfl⟩ := Prog.returns_pure.mp h
    obtain ⟨es, hes, hexchange, hwedged, hm⟩ := uciPushWait_wedged hidle hput hpush
    exact ⟨es, [], .of_wedged (by rw [hes, hlog₀]) hexchange hwedged (by rw [hm]; exact hip₀)
      (by rw [hm]; rfl)⟩
  rw [Bool.not_eq_true] at hc₄
  subst hc₄
  obtain ⟨c₅, s₅, hcheck, h⟩ := Prog.returns_bind.mp h
  rcases Prog.returns_ite.mp h with ⟨rfl, h⟩ | ⟨hc₅, h⟩
  · -- The count is refused.
    obtain ⟨c₆, s₆, hdrain, h⟩ := Prog.returns_bind.mp h
    obtain ⟨rfl, rfl⟩ := Prog.returns_pure.mp h
    obtain ⟨es, hes, hexchange, hpushed, hset, hwedged, hcore, herror⟩ :=
      refused_spec 1 hidle hput hpush hcheck hdrain
    rw [hlog₀] at hes
    have hip : s'.mem.netLocalIp = s₀.mem.netLocalIp := (congrArg UciMem.netLocalIp hcore :)
    refine ⟨es, [], ?_⟩
    cases c₆ with
    | true => exact .of_wedged hes hexchange (hwedged.mpr rfl) (hip.trans hip₀) herror
    | false =>
      exact .of_zero hes hexchange hpushed (mt hwedged.mp Bool.false_ne_true) (if_neg hset)
        (hip.trans hip₀) (herror.trans herror₀)
  rw [Bool.not_eq_true] at hc₅
  subst hc₅
  obtain ⟨c₆, s₆, hread, h⟩ := Prog.returns_bind.mp h
  obtain ⟨es, hes, hexchange, hpushed, hclear, hwedged, hip, herror, hcount, hbytes⟩ :=
    answered_spec (by omega) hidle hput hpush hcheck hread
  rw [hlog₀] at hes
  rcases Prog.returns_ite.mp h with ⟨rfl, h⟩ | ⟨hc₆, h⟩
  · obtain ⟨rfl, rfl⟩ := Prog.returns_pure.mp h
    exact ⟨es, [], .of_wedged hes hexchange (hwedged.mpr rfl) (hip.trans hip₀) herror⟩
  have hsound : ¬ Wedged 1 es := mt hwedged.mp hc₆
  rw [if_neg hc₆, herror₀] at herror
  rw [hip₀] at hip
  have hn : ifaceCount es = min ((replyOf es).headD 0).toNat netDhcpMaxIface := if_pos hclear
  obtain ⟨m, s₇, hcells, h⟩ := Prog.returns_bind.mp h
  obtain ⟨rfl, rfl⟩ := cells_spec hcells
  rw [hcount] at h hbytes
  rcases Prog.returns_ite.mp h with ⟨hnone, h⟩ | ⟨hone, h⟩
  · -- No byte of the count came.
    obtain ⟨rfl, rfl⟩ := Prog.returns_pure.mp h
    have hnil : replyOf es = [] := List.eq_nil_of_length_eq_zero (by omega)
    refine ⟨es, [], .of_zero hes hexchange hpushed hsound ?_ hip herror⟩
    rw [hn, hnil]
    rfl
  have hfirst : byte s₆.mem.uciIpaddrResp 0 = (replyOf es).headD 0 := by
    rw [hbytes 0 (by omega)]
    cases replyOf es <;> rfl
  rw [hfirst] at h
  rcases Prog.returns_ite.mp h with ⟨hzero, h⟩ | ⟨hpos, h⟩
  · obtain ⟨rfl, rfl⟩ := Prog.returns_pure.mp h
    refine ⟨es, [], .of_zero hes hexchange hpushed hsound ?_ hip herror⟩
    rw [hn, hzero]
    rfl
  · rw [← hn] at h
    have hlt : 0 < ifaceCount es := by
      have hne : ((replyOf es).headD 0).toNat ≠ 0 := fun heq => hpos (UInt8.toNat_inj.mp heq)
      rw [hn, netDhcpMaxIface]
      omega
    obtain ⟨probes, hchosen⟩ := loop_nextIface_spec hlt hip herror h
    exact ⟨es, probes, .of_chosen hes hexchange hpushed hsound rfl hchosen⟩

/-- **Lease selection.** On every device whose clock ticks the call comes to an answer. Its log is an
exchange for the count and one for each interface asked. If a wait of a command or a drain gave up in
one of them, that is the error. Otherwise the commands pushed are the one for the count and one for
each interface asked, in order, and the outcome is the one that the count and the replies select. -/
theorem netDhcpAcquire_lease :
    (D.Ticks s.dev → (netDhcpAcquire D).Ends s) ∧
    ∀ c s', (netDhcpAcquire D).Returns s c s' → ∃ count probes,
      s'.log = s.log ++ (count ++ List.flatten probes) ∧
      Exchange countCommand count ∧ Asked probes ∧
      (Wedged 1 count ∨ (∃ es ∈ probes, Wedged 12 es) →
        c = true ∧ s'.mem.netLocalIp = zero 4 ∧ s'.mem.netLastError = uciErrWaitTimeout) ∧
      (¬ Wedged 1 count → (∀ es ∈ probes, ¬ Wedged 12 es) →
        pushed (count ++ probes.flatten) =
          countCommand :: (List.range probes.length).map ipaddrCommand ∧
        Selected (ifaceCount count) (probes.map recordOf) c s'.mem) := by
  refine ⟨netDhcpAcquire_total.ends s, fun c s' h => ?_⟩
  obtain ⟨count, probes, hacquired⟩ := netDhcpAcquire_acquired h
  exact ⟨count, probes, hacquired.log, hacquired.counted, hacquired.asked, hacquired.gaveUp,
    hacquired.selected⟩

/-- The register values of a wait that ends at once with `status`. -/
def readsAtOnce (status : UInt8) : List UInt8 := [0, 0, status]

/-- The register values of an exchange that reads the bytes `bs`. -/
def readsOfAnswer (bs : List UInt8) : List UInt8 :=
  readsAtOnce 0 ++ [0] ++ readsAtOnce 0 ++ [0] ++
    bs.flatMap (fun b => readsAtOnce uciStatDataAv ++ [b]) ++ readsAtOnce 0 ++ readsAtOnce 0

/-- Two interfaces, the first of them down, and the lease of an earlier call in the cells. -/
def sampleLease : State (List UInt8) where
  mem := { UciMem.start with netLocalIp := #v[9, 9, 9, 9], uciIpaddrResp := tabulate 12 fun _ => 9 }
  dev := readsOfAnswer [2] ++ readsOfAnswer (List.replicate 12 0) ++
    readsOfAnswer [10, 0, 0, 2, 255, 255, 255, 0, 10, 0, 0, 1]
  log := []

theorem sampleLease_returns : ((netDhcpAcquire scriptDevice).run 14 sampleLease).isSome := by
  decide +kernel

theorem netDhcpAcquire_lease_sample :
    let r := ((netDhcpAcquire scriptDevice).run 14 sampleLease).get sampleLease_returns
    r.1 = false ∧ r.2.mem.netLocalIp = #v[10, 0, 0, 2] ∧
    ∃ count probes, r.2.log = count ++ List.flatten probes ∧
      pushed (count ++ List.flatten probes) =
        countCommand :: (List.range probes.length).map ipaddrCommand ∧
      Selected (ifaceCount count) (probes.map recordOf) r.1 r.2.mem := by
  obtain ⟨count, probes, hlog, -, -, hgaveUp, hselected⟩ :=
    netDhcpAcquire_lease.2 _ _ (Prog.returns_get sampleLease_returns)
  have herror : (((netDhcpAcquire scriptDevice).run 14 sampleLease).get
      sampleLease_returns).2.mem.netLastError ≠ uciErrWaitTimeout := by decide +kernel
  have hsound : ¬ (Wedged 1 count ∨ ∃ es ∈ probes, Wedged 12 es) := fun hwedged =>
    herror (hgaveUp hwedged).2.2
  rw [not_or] at hsound
  have hprobes : ∀ es ∈ probes, ¬ Wedged 12 es := fun es hes hwedged =>
    hsound.2 ⟨es, hes, hwedged⟩
  obtain ⟨hpushed, hchoice⟩ := hselected hsound.1 hprobes
  exact ⟨by decide +kernel, by decide +kernel, count, probes, hlog, hpushed, hchoice⟩

end C64WireGuard.Uci
