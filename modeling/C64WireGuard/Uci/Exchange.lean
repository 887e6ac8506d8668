import C64WireGuard.ConfigText
import C64WireGuard.Uci.CommandSpec

/-!
# The pieces of an exchange

The commands the adapter builds, the drains that end an exchange, and the opening and closing of
the socket: what each leaves in the log and in the cells.
-/

namespace C64WireGuard.Uci

open Bytes

variable {δ α : Type} {D : Device δ} {s s' : State δ}

/-! ## Cells that outlive a helper -/

theorem core_takeStatus (b : UInt8) (m : UciMem) : (takeStatus b m).core = m.core := by
  unfold takeStatus
  split <;> rfl

theorem core_foldl_takeStatus (line : List UInt8) (m : UciMem) :
    (line.foldl (fun m b => takeStatus b m) m).core = m.core := by
  induction line generalizing m with
  | nil => rfl
  | cons b line ih => exact (ih _).trans (core_takeStatus b m)

@[simp] theorem core_drained (m : UciMem) (line : List UInt8) : (m.drained line).core = m.core :=
  core_foldl_takeStatus line { m with dstIdx := 0 }

theorem setLastError_spec {e : UInt8} {u : Unit} (h : (setLastError e).Returns s u s') :
    s'.log = s.log ∧ s'.mem = { s.mem with netLastError := e } :=
  ⟨(store_spec h).1, (store_spec h).2.1⟩

/-! ## Commands -/

/-- The program writes the command bytes `bs` and does nothing else. -/
def Writes (p : Prog (State δ) Unit) (bs : List UInt8) : Prop :=
  ∀ s u s', p.Returns s u s' → s'.log = s.log ++ commandWrites bs ∧ s'.mem = s.mem

theorem Writes.put (b : UInt8) : Writes (uciPutByte D b) [b] := fun _ _ _ h => sta_spec h

theorem Writes.seq {p q : Prog (State δ) Unit} {bs cs : List UInt8} (hp : Writes p bs)
    (hq : Writes q cs) : Writes (p >>= fun _ => q) (bs ++ cs) := by
  intro s u s' h
  obtain ⟨u', s₁, h₁, h₂⟩ := Prog.returns_bind.mp h
  obtain ⟨hlog₁, hmem₁⟩ := hp s u' s₁ h₁
  obtain ⟨hlog₂, hmem₂⟩ := hq s₁ u s' h₂
  refine ⟨?_, hmem₂.trans hmem₁⟩
  rw [hlog₂, hlog₁, List.append_assoc, commandWrites, commandWrites, commandWrites, List.map_append]

theorem Writes.when {c : Prop} [Decidable c] (b : UInt8) :
    Writes (Prog.when c (uciPutByte D b)) (if c then [b] else []) := by
  intro s u s' h
  rcases Prog.returns_when.mp h with ⟨hc, h⟩ | ⟨hc, rfl⟩
  · rw [if_pos hc]
    exact Writes.put b s u s' h
  · rw [if_neg hc]
    exact ⟨(List.append_nil _).symm, rfl⟩

/-- The digits that `push_byte_as_ascii` puts out. -/
def asciiDigits (b : UInt8) : List UInt8 :=
  (if b / 100 ≠ 0 then [b / 100 ||| 0x30] else []) ++
    ((if b % 100 / 10 ≠ 0 ∨ 10 ≤ b then [b % 100 / 10 ||| 0x30] else []) ++
      [b % 100 % 10 ||| 0x30])

theorem asciiDigits_eq (b : UInt8) : asciiDigits b = decimal b.toNat := by
  obtain ⟨⟨n⟩⟩ := b
  revert n
  decide +kernel

example : asciiDigits 205 = [0x32, 0x30, 0x35] := by decide +kernel

theorem pushByteAsAscii_writes (b : UInt8) : Writes (pushByteAsAscii D b) (decimal b.toNat) := by
  rw [← asciiDigits_eq]
  exact (Writes.when _).seq ((Writes.when _).seq (.put _))

/-- `UDP_CONNECT` to an endpoint. -/
def connectCommand (dest : Endpoint) : List UInt8 :=
  [uciTargetNetwork, uciCmdUdpConnect, byte dest.port 1, byte dest.port 0] ++ dotted dest.ip ++ [0]

theorem putEndpoint_writes (dest : Endpoint) :
    Writes (putEndpoint D dest) ([byte dest.port 1, byte dest.port 0] ++ dotted dest.ip ++ [0]) := by
  have h : Writes (putEndpoint D dest) _ :=
    (Writes.put _).seq ((Writes.put _).seq ((pushByteAsAscii_writes _).seq ((Writes.put _).seq
      ((pushByteAsAscii_writes _).seq ((Writes.put _).seq ((pushByteAsAscii_writes _).seq
        ((Writes.put _).seq ((pushByteAsAscii_writes _).seq (Writes.put _)))))))))
  simpa [dotted] using h

/-! ## The verdict on a push -/

/-- What comes after the first push. -/
def afterPush : List Access → List Access
  | [] => []
  | .write .uciControl v :: es => if v = uciCtrlPushCmd then es else afterPush es
  | _ :: es => afterPush es

/-- The status that decides over a pushed command: the one read next after `CMD_BUSY` was seen
clear. -/
def verdict (es : List Access) : Option UInt8 :=
  ((readsOf .uciStatus (afterPush es)).dropWhile fun v => v &&& uciStatCmdBusy ≠ 0)[1]?

/-- The command was taken, and the error bit was clear. -/
def ErrorClear (es : List Access) : Prop := ∃ v, verdict es = some v ∧ v &&& uciStatError = 0

theorem afterPush_quiet {es : List Access} (h : Quiet es) (fs : List Access) :
    afterPush (es ++ fs) = afterPush fs := by
  induction es with
  | nil => rfl
  | cons e es ih =>
    rw [quiet_cons] at h
    rw [List.cons_append, ← ih h.2]
    match e, h.1 with
    | .read _ _, _ => rfl
    | .expired, _ => rfl
    | .write .uciControl v, hv => exact if_neg hv
    | .write .ciaTodHour _, _ => rfl
    | .write .ciaTodMin _, _ => rfl
    | .write .ciaTodSec _, _ => rfl
    | .write .ciaTodTenths _, _ => rfl
    | .write .ciaCrb _, _ => rfl

theorem afterPush_command {es : List Access} (h : Quiet es) (bs : List UInt8) (fs : List Access) :
    afterPush (es ++ commandWrites bs ++ .write .uciControl uciCtrlPushCmd :: fs) = fs := by
  rw [List.append_assoc, afterPush_quiet h]
  induction bs with
  | nil => exact if_pos rfl
  | cons b bs ih => exact ih

/-- The verdict is the first status read after the wait for `CMD_BUSY`. -/
theorem verdict_command {es ws fs : List Access} {bs : List UInt8} {m m' : UciMem} {v : UInt8}
    (h : Quiet es)
    (hwait : Waited (fun status => status &&& uciStatCmdBusy = 0) m false ws m') :
    verdict (es ++ commandWrites bs ++
      .write .uciControl uciCtrlPushCmd :: (ws ++ .read .uciStatus v :: fs)) = some v := by
  cases hwait with
  | @seen _ vs w _ hreads hbefore hlast =>
    have hlast : w &&& uciStatCmdBusy = 0 := of_decide_eq_true hlast
    have hbusy : ∀ x ∈ vs, decide (x &&& uciStatCmdBusy ≠ 0) = true := by
      intro x hx
      have := hbefore x hx
      simpa using this
    rw [verdict, afterPush_command h, readsOf_append, hreads, readsOf_read, if_pos rfl,
      List.append_assoc, List.dropWhile_append_of_pos hbusy]
    simp [hlast]

/-! ## The end of an exchange -/

/-- **The drains and the ack**, given up when a drain gives up. What they drain of the status line
is in the cells when they come through. -/
theorem drainAck_spec {c : Bool} (h : (drainAck D).Returns s c s') :
    Since s (fun es m => Quiet es ∧ (c = true ↔ .expired ∈ es) ∧ m.core = s.mem.core ∧
      (c = false → m = s.mem.drained (readsOf .uciStatusData es))) s' := by
  simp only [drainAck, Prog.returns_bind, Prog.returns_ite, Prog.returns_pure] at h
  obtain ⟨c₁, s₁, hresp, h⟩ := h
  obtain ⟨es₁, hes₁, hquiet₁, hstatus₁, hexp₁, hm₁⟩ := uciDrainResp_spec hresp
  rcases h with ⟨rfl, rfl, rfl⟩ | ⟨hc₁, c₂, s₂, hstat, h⟩
  · rw [if_pos rfl] at hm₁
    exact ⟨es₁, hes₁, hquiet₁, hexp₁, by rw [hm₁, core_timedOut], by simp⟩
  · rw [if_neg hc₁] at hm₁
    rw [Bool.not_eq_true] at hc₁
    subst hc₁
    obtain ⟨es₂, hes₂, hquiet₂, -, hexp₂, hm₂⟩ := uciDrainStatus_spec hstat
    have hclean₁ : .expired ∉ es₁ := fun he => by cases hexp₁.mpr he
    rw [hm₁] at hm₂
    rcases h with ⟨rfl, rfl, rfl⟩ | ⟨hc₂, u, s₃, hack, rfl, rfl⟩
    · rw [if_pos rfl] at hm₂
      exact ⟨es₁ ++ es₂, by rw [hes₂, hes₁, List.append_assoc], by simp [hquiet₁, hquiet₂],
        by simp [hclean₁, ← hexp₂], by rw [hm₂, core_timedOut, core_drained], by simp⟩
    · rw [if_neg hc₂] at hm₂
      rw [Bool.not_eq_true] at hc₂
      subst hc₂
      obtain ⟨hlog₃, hm₃⟩ := uciAck_spec hack
      have hclean₂ : .expired ∉ es₂ := fun he => by cases hexp₂.mpr he
      refine ⟨es₁ ++ es₂ ++ [.write .uciControl uciCtrlNextData], ?_, ?_, ?_, ?_, fun _ => ?_⟩
      · rw [hlog₃, hes₂, hes₁]
        simp only [List.append_assoc]
      · rw [quiet_append, quiet_append]
        exact ⟨⟨hquiet₁, hquiet₂⟩, Calm.quiet (by simp)⟩
      · simp [hclean₁, hclean₂]
      · rw [hm₃, hm₂, core_drained]
      · rw [hm₃, hm₂]
        simp [hstatus₁]

theorem drainAckAlways_spec {u : Unit} (h : (drainAckAlways D).Returns s u s') :
    Since s (fun es m => Quiet es ∧ m.core = s.mem.core) s' := by
  simp only [drainAckAlways, Prog.returns_bind] at h
  obtain ⟨c₁, s₁, hresp, c₂, s₂, hstat, hack⟩ := h
  obtain ⟨es₁, hes₁, hquiet₁, -, -, hm₁⟩ := uciDrainResp_spec hresp
  obtain ⟨es₂, hes₂, hquiet₂, -, -, hm₂⟩ := uciDrainStatus_spec hstat
  obtain ⟨hlog₃, hm₃⟩ := uciAck_spec hack
  refine ⟨es₁ ++ es₂ ++ [.write .uciControl uciCtrlNextData], ?_, ?_, ?_⟩
  · rw [hlog₃, hes₂, hes₁]
    simp only [List.append_assoc]
  · rw [quiet_append, quiet_append]
    exact ⟨⟨hquiet₁, hquiet₂⟩, Calm.quiet (by simp)⟩
  · have hcore₁ : s₁.mem.core = s.mem.core := by
      rw [hm₁]
      split <;> rfl
    rw [hm₃, hm₂, ← hcore₁]
    split
    · rw [core_timedOut, core_drained]
    · rw [core_drained]

/-! ## Status lines -/

/-- What `uci_status_leading_code` makes of the first two bytes of a line. -/
def lineCode (a b : UInt8) : UInt8 := ((a - 0x30) * 4 + (a - 0x30)) * 2 + (b - 0x30)

/-- A line is acceptable when it is too short to carry a code, or its code is zero. -/
def LineOk : List UInt8 → Prop
  | a :: b :: _ => lineCode a b = 0
  | _ => True

/-- An ASCII digit. -/
def IsDigit (a : UInt8) : Prop := 0x30 ≤ a ∧ a ≤ 0x39

/-- Two digits carry the code zero only as 00. -/
theorem lineCode_eq_zero {a b : UInt8} (ha : IsDigit a) (hb : IsDigit b) :
    lineCode a b = 0 ↔ a = 0x30 ∧ b = 0x30 := by
  have key : ∀ x y : Fin 10, lineCode (UInt8.ofNat (0x30 + x)) (UInt8.ofNat (0x30 + y)) = 0 ↔
      UInt8.ofNat (0x30 + x) = 0x30 ∧ UInt8.ofNat (0x30 + y) = 0x30 := by
    decide +kernel
  have hdigit : ∀ {c : UInt8}, IsDigit c → ∃ x : Fin 10, c = UInt8.ofNat (0x30 + x) := by
    intro c hc
    have hlo : 0x30 ≤ c.toNat := UInt8.le_iff_toNat_le.mp hc.1
    have hhi : c.toNat ≤ 0x39 := UInt8.le_iff_toNat_le.mp hc.2
    refine ⟨⟨c.toNat - 0x30, by omega⟩, ?_⟩
    rw [Nat.add_sub_of_le hlo, UInt8.ofNat_toNat]
  obtain ⟨x, rfl⟩ := hdigit ha
  obtain ⟨y, rfl⟩ := hdigit hb
  exact key x y

/-- The bytes of a drained line that are kept. -/
theorem foldl_takeStatus (line : List UInt8) (m : UciMem) (h : m.dstIdx ≤ uciStatusMax) :
    let m' := line.foldl (fun m b => takeStatus b m) m
    m'.dstIdx = min (m.dstIdx + line.length) uciStatusMax ∧
    ∀ i, byte m'.uciStatusBuf i =
      if m.dstIdx ≤ i ∧ i < min (m.dstIdx + line.length) uciStatusMax
      then line.getD (i - m.dstIdx) 0 else byte m.uciStatusBuf i := by
  induction line generalizing m with
  | nil =>
    refine ⟨(Nat.min_eq_left h).symm, fun i => ?_⟩
    rw [if_neg (by simp only [List.length_nil, Nat.add_zero]; omega)]
    rfl
  | cons b line ih =>
    rw [List.foldl_cons, List.length_cons]
    by_cases hroom : uciStatusMax ≤ m.dstIdx
    · have htake : takeStatus b m = m := if_pos hroom
      obtain ⟨hidx, hbuf⟩ := ih m h
      rw [htake]
      refine ⟨hidx.trans (by omega), fun i => ?_⟩
      rw [hbuf i, if_neg (by omega), if_neg (by omega)]
    · have htake : takeStatus b m =
          { m with uciStatusBuf := put m.uciStatusBuf m.dstIdx b, dstIdx := m.dstIdx + 1 } :=
        if_neg hroom
      rw [htake]
      obtain ⟨hidx, hbuf⟩ := ih { m with
        uciStatusBuf := put m.uciStatusBuf m.dstIdx b, dstIdx := m.dstIdx + 1 } (by
          show m.dstIdx + 1 ≤ uciStatusMax
          omega)
      refine ⟨hidx.trans (by dsimp only; omega), fun i => ?_⟩
      rw [hbuf i]
      dsimp only
      by_cases hi : i = m.dstIdx
      · rw [if_neg (by omega), if_pos (by omega), byte_put]
        simp [hi, Nat.lt_of_not_le hroom]
      · rw [byte_put, if_neg (show ¬ (i = m.dstIdx ∧ i < uciStatusMax) from fun h => hi h.1)]
        by_cases hin : m.dstIdx + 1 ≤ i ∧ i < min (m.dstIdx + 1 + line.length) uciStatusMax
        · have hsub : i - m.dstIdx = (i - (m.dstIdx + 1)) + 1 := by omega
          rw [if_pos hin, if_pos (by omega), hsub, List.getD_cons_succ]
        · rw [if_neg hin, if_neg (by omega)]

/-- A line was refused exactly when it carries a code other than zero. -/
theorem refused_drained (m : UciMem) (line : List UInt8) :
    refused (m.drained line) = false ↔ LineOk line := by
  obtain ⟨hidx, hbuf⟩ := foldl_takeStatus line { m with dstIdx := 0 } (Nat.zero_le _)
  have hseen : (m.drained line).uciStatusSeen = min line.length uciStatusMax := by
    rw [← Nat.zero_add line.length]
    exact hidx
  have hbyte : ∀ i, i < min line.length uciStatusMax →
      byte (m.drained line).uciStatusBuf i = line.getD i 0 := by
    intro i hi
    have := hbuf i
    rw [if_pos ⟨Nat.zero_le i, by rwa [Nat.zero_add]⟩, Nat.sub_zero] at this
    exact this
  unfold refused
  rw [hseen]
  match line with
  | [] => simp [LineOk]
  | [a] => simp [LineOk, uciStatusMax]
  | a :: b :: rest =>
    have hlong : 2 ≤ min (a :: b :: rest).length uciStatusMax := by
      simp only [List.length_cons, uciStatusMax]
      omega
    have hcode : uciStatusLeadingCode (m.drained (a :: b :: rest)) = lineCode a b := by
      unfold uciStatusLeadingCode lineCode
      rw [hbyte 0 (by omega), hbyte 1 (by omega)]
      rfl
    rw [hcode, decide_eq_true hlong, Bool.true_and]
    simp [LineOk]

/-! ## Payloads -/

/-- The `n` bytes of memory from address `a` on. -/
def ramBytes (ram : Nat → UInt8) (a n : Nat) : List UInt8 :=
  (List.range n).map fun i => ram ((a + i) % 65536)

@[simp] theorem length_ramBytes (ram : Nat → UInt8) (a n : Nat) : (ramBytes ram a n).length = n := by
  simp [ramBytes]

/-- **The body of a write** is the `uci_chunk_len` bytes behind the operand, whatever pages they
cross. -/
theorem bodyLoop_spec {o : Operand} {u : Unit} (hy : o.y < 256)
    (h : (Prog.loop (bodyLoop D) o).Returns s u s') :
    s'.log = s.log ++ commandWrites (ramBytes s.mem.ram o.addr s.mem.uciChunkLen) ∧
      s'.mem = { s.mem with uciChunkLen := 0 } := by
  refine h.loop_rule
    (I := fun o' t => ∃ k, k ≤ s.mem.uciChunkLen ∧ o'.y < 256 ∧
      o'.addr = (o.addr + k) % 65536 ∧
      t.log = s.log ++ commandWrites (ramBytes s.mem.ram o.addr k) ∧
      t.mem = { s.mem with uciChunkLen := s.mem.uciChunkLen - k })
    (Q := fun _ t =>
      t.log = s.log ++ commandWrites (ramBytes s.mem.ram o.addr s.mem.uciChunkLen) ∧
      t.mem = { s.mem with uciChunkLen := 0 })
    ?_ ?_ ⟨0, Nat.zero_le _, hy, ?_, (List.append_nil _).symm, rfl⟩
  · rintro o' t o'' t' ⟨k, hk, hy', haddr, hlog, hmem⟩ hround
    simp only [bodyLoop, Prog.returns_bind, Prog.returns_ite, Prog.returns_pure] at hround
    obtain ⟨m, t₁, hcells, hround⟩ := hround
    obtain ⟨rfl, rfl⟩ := cells_spec hcells
    rcases hround with ⟨-, hcontra, -⟩ | ⟨hne, u₁, t₂, hsta, u₂, t₃, hput, heq, rfl⟩
    · cases hcontra
    · cases heq
      obtain ⟨hlog₂, hmem₂⟩ := sta_spec hsta
      obtain ⟨hlog₃, hmem₃, -⟩ := store_spec hput
      obtain ⟨hnext, hynext⟩ := Operand.addr_next hy'
      have hlt : k < s.mem.uciChunkLen := by
        rw [hmem] at hne
        exact Nat.lt_of_sub_ne_zero hne
      refine ⟨k + 1, hlt, hynext, ?_, ?_, ?_⟩
      · rw [hnext, haddr]
        omega
      · have hbyte : t.mem.ram o'.addr = s.mem.ram ((o.addr + k) % 65536) := by rw [hmem, haddr]
        rw [hlog₃, hlog₂, hlog, hbyte]
        simp [ramBytes, commandWrites, List.range_succ]
      · rw [hmem₃, hmem₂, hmem, Nat.sub_sub]
  · rintro o' t u t' ⟨k, hk, hy', haddr, hlog, hmem⟩ hround
    simp only [bodyLoop, Prog.returns_bind, Prog.returns_ite, Prog.returns_pure] at hround
    obtain ⟨m, t₁, hcells, hround⟩ := hround
    obtain ⟨rfl, rfl⟩ := cells_spec hcells
    rcases hround with ⟨hzero, -, rfl⟩ | ⟨-, u₁, t₂, -, u₂, t₃, -, hcontra, -⟩
    · have hk : k = s.mem.uciChunkLen := by
        rw [hmem] at hzero
        exact Nat.le_antisymm hk (Nat.le_of_sub_eq_zero hzero)
      subst hk
      exact ⟨hlog, by rw [hmem, Nat.sub_self]⟩
    · cases hcontra
  · unfold Operand.addr
    omega

end C64WireGuard.Uci
