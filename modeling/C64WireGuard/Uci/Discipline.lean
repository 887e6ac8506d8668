import C64WireGuard.Lib.Protocol
import C64WireGuard.Uci.Clock
import C64WireGuard.Uci.Receive

/-!
# The gate, told from the accesses

Every command goes through one gate, `uci_wait_idle`: two reads of the status in a row that show an
idle interface, and `CLR_ERR` when the first of them showed an error. From there to the push the
program makes no access but the writes of the command's own bytes. And it reads a byte of a reply
only straight after a status that announces one. `Gate.Step` says this as a protocol over single
accesses, and `commands_gated` proves that every call keeps to it, on every device and however its
bounded waits end.
-/

namespace C64WireGuard.Uci

open Bytes Prog

variable {δ α : Type} {D : Device δ}

/-! ## The protocol -/

/-- The commands of the adapter. -/
inductive Built : List UInt8 → Prop
  | ifaceCount : Built [uciTargetNetwork, uciCmdGetIfaceCount]
  | ipaddr (i : UInt8) : Built [uciTargetNetwork, uciCmdGetIpaddr, i]
  | connect (dest : Endpoint) : Built (connectCommand dest)
  | close (id : UInt8) : Built (closeCommand id)
  | read (id : UInt8) : Built (readCommand id)
  | write (id : UInt8) (data : List UInt8) : Built ([uciTargetNetwork, uciCmdSocketWrite, id] ++ data)
  | part (id : UInt8) (off total : Nat) (data : List UInt8) :
      Built ([uciTargetNetwork, uciCmdSocketWriteChunk, id, lo off, hi off, lo total, hi total] ++ data)

/-- The status of an idle interface. -/
def IdleStatus (v : UInt8) : Prop := v &&& (uciStatState ||| uciStatCmdBusy) = 0

/-- An access that may be made at any time. -/
def Access.Harmless : Access → Prop
  | .read .uciRespData _ => False
  | .read .uciStatusData _ => False
  | .write .uciCmdData _ => False
  | .write .uciControl v => v = uciCtrlNextData ∨ v = uciCtrlClrErr
  | _ => True

/-- How far the gate is open: one read has shown an idle interface, or two have and the bytes of a
command follow. `clear` says that no error was left in the status. At `data` and at `line` the last
access has shown that a byte of that queue is there. -/
inductive Gate
  | shut
  | ajar (clear : Bool)
  | opened (clear : Bool) (bytes : List UInt8)
  | data
  | line

/-- **The gate.** Only a push completes a command that has been begun. -/
inductive Gate.Step : Gate → Access → Gate → Prop
  | once {v : UInt8} (idle : IdleStatus v) :
      Step .shut (.read .uciStatus v) (.ajar (v &&& uciStatError = 0))
  | twice {clear : Bool} {v : UInt8} (idle : IdleStatus v) :
      Step (.ajar clear) (.read .uciStatus v) (.opened clear [])
  | clear : Step (.opened false []) (.write .uciControl uciCtrlClrErr) (.opened true [])
  | put {bs : List UInt8} (b : UInt8) :
      Step (.opened true bs) (.write .uciCmdData b) (.opened true (bs ++ [b]))
  | push {bs : List UInt8} (built : Built bs) :
      Step (.opened true bs) (.write .uciControl uciCtrlPushCmd) .shut
  | dataAv {v : UInt8} (announced : v &&& uciStatDataAv ≠ 0) : Step .shut (.read .uciStatus v) .data
  | statAv {v : UInt8} (announced : v &&& uciStatStatAv ≠ 0) : Step .shut (.read .uciStatus v) .line
  | takeData (b : UInt8) : Step .data (.read .uciRespData b) .shut
  | takeLine (b : UInt8) : Step .line (.read .uciStatusData b) .shut
  | shut {e : Access} (harmless : e.Harmless) : Step .shut e .shut
  | relapse {clear : Bool} {e : Access} (harmless : e.Harmless) : Step (.ajar clear) e .shut

/-! ## Accesses of the device -/

/-- The device moves on at an access, and stands still when a wait gives up. -/
inductive Device.Sees (D : Device δ) : δ → Access → δ → Prop
  | next {a : Access} {d d' : δ} (h : D.Next a d d') : D.Sees d a d'
  | expired (d : δ) : D.Sees d .expired d

/-- What the log records, with what the device did. -/
def record (D : Device δ) : Record (State δ) Access where
  Moves s es s' := s'.log = s.log ++ es ∧ Path D.Sees s.dev es s'.dev
  nil s := ⟨(List.append_nil _).symm, .nil _⟩
  append h h' := ⟨by rw [h'.1, h.1, List.append_assoc], h.2.trans h'.2⟩

/-- A routine that goes from the gates in `G` to those in `G'`. -/
abbrev Gated (D : Device δ) (G : Gate → Prop) (p : Prog (State δ) α) (G' : α → Gate → Prop) : Prop :=
  Obeys (record D) Gate.Step G p G'

/-- No command is begun. -/
abbrev Gate.IsShut : Gate → Prop := (· = .shut)

/-- A routine outside of the gate. -/
abbrev Outside (D : Device δ) (p : Prog (State δ) α) : Prop :=
  Gated D Gate.IsShut p fun _ => Gate.IsShut

/-- The bytes of a command have been written. -/
abbrev Begun (bs : List UInt8) : Gate → Prop := (· = .opened true bs)

theorem moves_lda (r : ReadReg) (s : State δ) :
    (record D).Moves s [.read r (D.read r s.dev).1]
      { s with dev := (D.read r s.dev).2, log := s.log ++ [.read r (D.read r s.dev).1] } :=
  ⟨rfl, .single (.next (.read r s.dev))⟩

theorem lda_gated {G : Gate → Prop} {G' : UInt8 → Gate → Prop} {r : ReadReg}
    (h : ∀ v x, G x → ∃ y, Gate.Step x (.read r v) y ∧ G' v y) : Gated D G (lda D r) G' := by
  intro s v s' hret
  obtain ⟨rfl, rfl⟩ := Prog.returns_act.mp hret
  refine ⟨_, moves_lda r s, fun x hx => ?_⟩
  obtain ⟨y, hy, hG'⟩ := h _ x hx
  exact ⟨y, .single hy, hG'⟩

theorem sta_gated {G : Gate → Prop} {G' : Unit → Gate → Prop} {r : WriteReg} {v : UInt8}
    (h : ∀ x, G x → ∃ y, Gate.Step x (.write r v) y ∧ G' () y) : Gated D G (sta D r v) G' := by
  intro s u s' hret
  obtain ⟨rfl, rfl⟩ := Prog.returns_act.mp hret
  refine ⟨[.write r v], ⟨rfl, .single (.next (.write r v s.dev))⟩, fun x hx => ?_⟩
  obtain ⟨y, hy, hG'⟩ := h x hx
  exact ⟨y, .single hy, hG'⟩

theorem giveUp_outside : Outside D (giveUp : Prog (State δ) Unit) := by
  intro s u s' hret
  obtain ⟨rfl, rfl⟩ := Prog.returns_act.mp hret
  refine ⟨[.expired], ⟨rfl, .single (.expired _)⟩, fun x hx => ?_⟩
  obtain rfl := hx
  exact ⟨.shut, .single (.shut trivial), rfl⟩

theorem cells_gated {G : Gate → Prop} : Gated D G cells fun _ => G := by
  intro s m s' hret
  obtain ⟨rfl, rfl⟩ := Prog.returns_act.mp hret
  exact ⟨[], (record D).nil _, fun x hx => ⟨x, .nil x, hx⟩⟩

theorem store_gated {G : Gate → Prop} {f : UciMem → UciMem} : Gated D G (store f) fun _ => G := by
  intro s u s' hret
  obtain ⟨rfl, rfl⟩ := Prog.returns_act.mp hret
  exact ⟨[], (record D).nil s, fun x hx => ⟨x, .nil x, hx⟩⟩

theorem lda_outside {r : ReadReg} (h : ∀ v, (Access.read r v).Harmless) : Outside D (lda D r) :=
  lda_gated fun v x hx => by
    obtain rfl := hx
    exact ⟨.shut, .shut (h v), rfl⟩

theorem lda_status : Outside D (lda D .uciStatus) := lda_outside fun _ => trivial

theorem sta_outside {r : WriteReg} {v : UInt8} (h : (Access.write r v).Harmless) :
    Outside D (sta D r v) :=
  sta_gated fun x hx => by
    obtain rfl := hx
    exact ⟨.shut, .shut h, rfl⟩

theorem pure_outside (a : α) : Outside D (Pure.pure a : Prog (State δ) α) := .pure a fun _ h => h

/-! ## Outside of the gate -/

theorem uciAck_outside : Outside D (uciAck D) := sta_outside (Or.inl rfl)

theorem setLastError_outside (e : UInt8) : Outside D (setLastError e : Prog (State δ) Unit) :=
  store_gated

theorem waitTimeout_outside : Outside D (waitTimeout : Prog (State δ) Bool) :=
  store_gated.bind fun _ => pure_outside true

theorem failWith_outside (e : UInt8) : Outside D (failWith e : Prog (State δ) Bool) :=
  store_gated.bind fun _ => pure_outside true

theorem readTenths_outside : Outside D (readTenths D) :=
  (lda_outside (r := .ciaTodHour) fun _ => trivial).bind fun _ =>
    lda_outside (r := .ciaTodTenths) fun _ => trivial

/-- A bounded wait gets to where its last poll gets, or is back outside of the gate. -/
theorem boundedWait_gated (budget : Nat) {poll : Prog (State δ) (Option α)} {Q : α → Gate → Prop}
    (hpoll : Gated D Gate.IsShut poll fun r => r.elim Gate.IsShut Q) :
    Gated D Gate.IsShut (boundedWait D budget poll) fun r => r.elim Gate.IsShut Q := by
  refine readTenths_outside.bind fun t => ?_
  refine Obeys.loop (I := fun _ => Gate.IsShut) (fun i => ?_) (t, 0)
  obtain ⟨last, elapsed⟩ := i
  refine hpoll.bind fun r => ?_
  cases r with
  | some a => exact .pure _ fun _ h => h
  | none =>
    refine readTenths_outside.bind fun t => ?_
    exact .ite (fun _ => .pure _ fun _ h => h) fun _ => .ite (fun _ => .pure _ fun _ h => h)
      fun _ => giveUp_outside.bind fun _ => .pure _ fun _ h => h

theorem boundedWait_outside {budget : Nat} {poll : Prog (State δ) (Option α)}
    (hpoll : Outside D poll) : Outside D (boundedWait D budget poll) := by
  have h := boundedWait_gated budget (Q := fun _ : α => Gate.IsShut)
    (hpoll.weaken (fun _ h => h) fun r x h => by cases r <;> exact h)
  exact h.weaken (fun _ h => h) fun r x h => by cases r <;> exact h

theorem statusWait_outside (budget : Nat) (done : UInt8 → Bool) :
    Outside D (statusWait D budget done) := by
  have hpoll : Outside D (statusPoll D done) :=
    lda_status.bind fun _ => .ite (fun _ => pure_outside _) fun _ => pure_outside _
  refine (boundedWait_outside hpoll).bind fun r => ?_
  cases r with
  | some u => exact pure_outside false
  | none => exact waitTimeout_outside

theorem uciWaitReplyStaged_outside : Outside D (uciWaitReplyStaged D) := statusWait_outside _ _

theorem uciCheckErr_outside : Outside D (uciCheckErr D) :=
  lda_status.bind fun _ => .ite (fun _ => pure_outside _) fun _ =>
    (sta_outside (r := .uciControl) (Or.inr rfl)).bind fun _ => pure_outside _

/-! ## Bytes of a reply -/

/-- A queue: the bit that announces a byte in it, and the register that takes the byte out. -/
inductive Queue : UInt8 → ReadReg → Gate → Prop
  | data : Queue uciStatDataAv .uciRespData .data
  | line : Queue uciStatStatAv .uciStatusData .line

/-- A status that announces a byte. -/
theorem Queue.announce {bit : UInt8} {r : ReadReg} {g : Gate} (hq : Queue bit r g) :
    Gated D Gate.IsShut (lda D .uciStatus) fun v x =>
      (v &&& bit ≠ 0 → x = g) ∧ (v &&& bit = 0 → x = .shut) := by
  refine lda_gated fun v x hx => ?_
  obtain rfl := hx
  by_cases hv : v &&& bit = 0
  · exact ⟨.shut, .shut trivial, fun hnot => absurd hv hnot, fun _ => rfl⟩
  · cases hq with
    | data => exact ⟨.data, .dataAv hv, fun _ => rfl, fun h => absurd h hv⟩
    | line => exact ⟨.line, .statAv hv, fun _ => rfl, fun h => absurd h hv⟩

/-- The byte that was announced. -/
theorem Queue.take {bit : UInt8} {r : ReadReg} {g : Gate} (hq : Queue bit r g) :
    Gated D (· = g) (lda D r) fun _ => Gate.IsShut := by
  refine lda_gated fun v x hx => ?_
  obtain rfl := hx
  cases hq with
  | data => exact ⟨.shut, .takeData v, rfl⟩
  | line => exact ⟨.shut, .takeLine v, rfl⟩

/-- A wait for a byte. -/
theorem rdWait_gated : Gated D Gate.IsShut (rdWait D) fun r =>
    r.elim Gate.IsShut fun _ => (· = .data) := by
  refine boundedWait_gated _ (Queue.data.announce.bind fun v => .ite (fun hv => ?_) fun hv => ?_)
  · exact .pure _ fun x hx => hx.1 (of_decide_eq_true hv)
  · exact .pure _ fun x hx => hx.2 (by simpa using hv)

theorem uciReadRespBytes_outside (max : Nat) (dst : Nat → UInt8 → UciMem → UciMem) :
    Outside D (uciReadRespBytes D max dst) := by
  refine Obeys.bind (H := fun _ => Gate.IsShut) ?_ fun _ => store_gated
  refine Obeys.loop (I := fun _ => Gate.IsShut) (fun y => ?_) 0
  refine .ite (fun _ => .pure _ fun _ h => h) fun _ => rdWait_gated.bind fun r => ?_
  cases r with
  | none => exact .pure _ fun _ h => h
  | some u => exact Queue.data.take.bind fun b => store_gated.bind fun _ => .pure _ fun _ h => h

theorem drain_outside {bit : UInt8} {r : ReadReg} {g : Gate} (hq : Queue bit r g)
    (take : UInt8 → UciMem → UciMem) :
    Outside D (boundedWait D uciWaitIdleBudgetTenths (drainPoll D bit r take)) := by
  refine boundedWait_outside (hq.announce.bind fun v => .ite (fun hv => ?_) fun hv => ?_)
  · exact .pure _ fun x hx => hx.2 hv
  · refine Obeys.weaken (G := (· = g)) ?_ (fun x hx => hx.1 hv) fun _ _ h => h
    exact hq.take.bind fun b => store_gated.bind fun _ => pure_outside _

theorem uciDrainResp_outside : Outside D (uciDrainResp D) := by
  refine (drain_outside .data _).bind fun r => ?_
  cases r with
  | some u => exact pure_outside false
  | none => exact waitTimeout_outside

theorem uciDrainStatus_outside : Outside D (uciDrainStatus D) := by
  refine store_gated.bind fun _ => (drain_outside .line _).bind fun r => ?_
  cases r with
  | some u => exact store_gated.bind fun _ => pure_outside false
  | none => exact waitTimeout_outside.bind fun _ => store_gated.bind fun _ => pure_outside _

theorem drainAck_outside : Outside D (drainAck D) :=
  uciDrainResp_outside.bind fun _ => .ite (fun _ => pure_outside _) fun _ =>
    uciDrainStatus_outside.bind fun _ => .ite (fun _ => pure_outside _) fun _ =>
      uciAck_outside.bind fun _ => pure_outside _

theorem drainAckAlways_outside : Outside D (drainAckAlways D) :=
  uciDrainResp_outside.bind fun _ => uciDrainStatus_outside.bind fun _ => uciAck_outside

theorem settleLoop_outside (reads : Nat) (prev : UInt8) : Outside D (settleLoop D reads prev) := by
  induction reads generalizing prev with
  | zero =>
    exact giveUp_outside.bind fun _ => (setLastError_outside _).bind fun _ => pure_outside none
  | succ reads ih =>
    exact lda_status.bind fun _ => .ite (fun _ => pure_outside _) fun _ => ih _

theorem uciSettleStatus_outside : Outside D (uciSettleStatus D) := settleLoop_outside _ _

/-! ## Through the gate -/

/-- A status that is read outside of the gate. -/
theorem lda_once : Gated D Gate.IsShut (lda D .uciStatus) fun v g =>
    (IdleStatus v → g = .ajar (v &&& uciStatError = 0)) ∧ (¬ IdleStatus v → g = .shut) := by
  refine lda_gated fun v x hx => ?_
  obtain rfl := hx
  by_cases hidle : IdleStatus v
  · exact ⟨_, .once hidle, fun _ => rfl, fun hnot => absurd hidle hnot⟩
  · exact ⟨_, .shut trivial, fun h => absurd h hidle, fun _ => rfl⟩

/-- The read that confirms it. -/
theorem lda_twice (clear : Bool) : Gated D (· = .ajar clear) (lda D .uciStatus) fun v g =>
    (IdleStatus v → g = .opened clear []) ∧ (¬ IdleStatus v → g = .shut) := by
  refine lda_gated fun v x hx => ?_
  obtain rfl := hx
  by_cases hidle : IdleStatus v
  · exact ⟨_, .twice hidle, fun _ => rfl, fun hnot => absurd hidle hnot⟩
  · exact ⟨_, .relapse trivial, fun h => absurd h hidle, fun _ => rfl⟩

theorem idlePoll_gated : Gated D Gate.IsShut (idlePoll D) fun r => r.elim Gate.IsShut
    fun status => (· = .opened (status &&& uciStatError = 0) []) := by
  refine lda_once.bind fun v => .ite (fun hv => ?_) fun hv => ?_
  · have hajar := (lda_twice (D := D) (v &&& uciStatError = 0)).bind
      (F := fun r => r.elim Gate.IsShut fun status => (· = .opened (status &&& uciStatError = 0) []))
      (f := fun again => if again &&& (uciStatState ||| uciStatCmdBusy) = 0
        then Pure.pure (some v) else Pure.pure none) fun again =>
          .ite (fun hagain => .pure _ fun x hx => hx.1 hagain)
            fun hagain => .pure _ fun x hx => hx.2 hagain
    exact hajar.weaken (fun x hx => hx.1 hv) fun _ _ h => h
  · refine Obeys.weaken (G := Gate.IsShut) ?_ (fun x hx => hx.2 hv) fun _ _ h => h
    exact .ite (fun _ => uciAck_outside.bind fun _ => .pure _ fun _ h => h) fun _ =>
      .pure _ fun _ h => h

theorem idleDone_gated (status : UInt8) :
    Gated D (· = .opened (status &&& uciStatError = 0) []) (idleDone D status) fun c g =>
      c = false ∧ g = .opened true [] := by
  refine .ite (fun hclear => ?_) fun herror => ?_
  · refine .pure _ fun x hx => ⟨rfl, ?_⟩
    rw [hx, decide_eq_true hclear]
  · refine Obeys.bind (H := fun _ g => g = .opened true []) (sta_gated fun x hx => ?_) fun _ =>
      .pure _ fun x hx => ⟨rfl, hx⟩
    rw [decide_eq_false herror] at hx
    obtain rfl := hx
    exact ⟨_, .clear, rfl⟩

/-- **`uci_wait_idle`** opens the gate, or gives up outside of it. -/
theorem uciWaitIdle_gated : Gated D Gate.IsShut (uciWaitIdle D) fun c g =>
    (c = true → g = .shut) ∧ (c = false → g = .opened true []) := by
  refine (boundedWait_gated _ idlePoll_gated).bind fun r => ?_
  cases r with
  | some status =>
    refine (idleDone_gated status).weaken (fun _ h => h) fun c x h => ?_
    exact ⟨fun hc => Bool.noConfusion (h.1.symm.trans hc), fun _ => h.2⟩
  | none =>
    refine store_gated.bind fun _ => .pure true fun x hx => ?_
    exact ⟨fun _ => hx, fun hc => Bool.noConfusion hc⟩

/-- A command behind the gate. -/
theorem gate_outside {p q : Prog (State δ) α} (hp : Outside D p)
    (hq : Gated D (Begun []) q fun _ => Gate.IsShut) :
    Outside D (uciWaitIdle D >>= fun c => if c = true then p else q) := by
  refine uciWaitIdle_gated.bind fun c => .ite (fun hc => ?_) fun hc => ?_
  · exact hp.weaken (fun x hx => hx.1 hc) fun _ _ h => h
  · exact hq.weaken (fun x hx => hx.2 (eq_false_of_ne_true hc)) fun _ _ h => h

/-- The program writes command bytes. -/
def Puts (D : Device δ) (p : Prog (State δ) Unit) (cs : List UInt8) : Prop :=
  ∀ bs, Gated D (Begun bs) p fun _ => Begun (bs ++ cs)

theorem Puts.put (b : UInt8) : Puts D (uciPutByte D b) [b] := by
  intro bs
  refine sta_gated fun x hx => ?_
  obtain rfl := hx
  exact ⟨_, .put b, rfl⟩

theorem Puts.seq {p q : Prog (State δ) Unit} {bs cs : List UInt8} (hp : Puts D p bs)
    (hq : Puts D q cs) : Puts D (p >>= fun _ => q) (bs ++ cs) := by
  intro ds
  rw [← List.append_assoc]
  exact (hp ds).bind fun _ => hq (ds ++ bs)

theorem Puts.when {c : Prop} [Decidable c] (b : UInt8) :
    Puts D (Prog.when c (uciPutByte D b)) (if c then [b] else []) := by
  intro bs
  refine Obeys.when (fun hc => ?_) fun hc x hx => ?_
  · rw [if_pos hc]
    exact Puts.put b bs
  · rw [if_neg hc, List.append_nil]
    exact hx

/-- A byte of a command, and the rest of a routine. -/
theorem Puts.next {p : Prog (State δ) Unit} {q : Unit → Prog (State δ) α} {bs cs : List UInt8}
    {G : α → Gate → Prop} (hp : Puts D p cs) (hq : ∀ u, Gated D (Begun (bs ++ cs)) (q u) G) :
    Gated D (Begun bs) (p >>= q) G := (hp bs).bind hq

theorem pushByteAsAscii_puts (b : UInt8) : Puts D (pushByteAsAscii D b) (decimal b.toNat) := by
  rw [← asciiDigits_eq]
  exact (Puts.when _).seq ((Puts.when _).seq (.put _))

theorem putEndpoint_puts (dest : Endpoint) :
    Puts D (putEndpoint D dest)
      ([byte dest.port 1, byte dest.port 0] ++ dotted dest.ip ++ [0]) := by
  have h : Puts D (putEndpoint D dest) _ :=
    (Puts.put _).seq ((Puts.put _).seq ((pushByteAsAscii_puts _).seq ((Puts.put _).seq
      ((pushByteAsAscii_puts _).seq ((Puts.put _).seq ((pushByteAsAscii_puts _).seq
        ((Puts.put _).seq ((pushByteAsAscii_puts _).seq (Puts.put _)))))))))
  simpa [dotted] using h

/-- The bytes of a command have been written, and more data after them. -/
abbrev Longer (bs : List UInt8) : Gate → Prop := fun g => ∃ data, g = .opened true (bs ++ data)

/-- The body of a write, and the rest of a routine. -/
theorem bodyLoop_next {q : Unit → Prog (State δ) α} {bs : List UInt8} {G : α → Gate → Prop}
    (o : Operand) (hq : ∀ u, Gated D (Longer bs) (q u) G) :
    Gated D (Begun bs) (.loop (bodyLoop D) o >>= q) G := by
  have hbody : Gated D (Longer bs) (.loop (bodyLoop D) o) fun _ => Longer bs := by
    refine Obeys.loop (I := fun _ => Longer bs) (fun o => ?_) o
    refine cells_gated.bind fun m => .ite (fun _ => .pure _ fun _ h => h) fun _ => ?_
    refine Obeys.bind (H := fun _ => Longer bs) (sta_gated fun x hx => ?_) fun _ =>
      store_gated.bind fun _ => .pure _ fun _ h => h
    obtain ⟨data, rfl⟩ := hx
    exact ⟨_, .put _, data ++ [m.ram o.addr], by rw [List.append_assoc]⟩
  refine (hbody.weaken (fun x hx => ⟨[], ?_⟩) fun _ _ h => h).bind hq
  rw [List.append_nil]
  exact hx

/-- The push of a whole command, and the rest of the exchange. -/
theorem push_gated {p : Bool → Prog (State δ) α} {G : Gate → Prop}
    (hG : ∀ g, G g → ∃ bs, Built bs ∧ g = .opened true bs) (hp : ∀ c, Outside D (p c)) :
    Gated D G (uciPushWait D >>= p) fun _ => Gate.IsShut := by
  refine Obeys.bind (H := fun _ => Gate.IsShut) ?_ hp
  refine Obeys.bind (H := fun _ => Gate.IsShut) (sta_gated fun x hx => ?_) fun _ =>
    statusWait_outside _ _
  obtain ⟨bs, hbuilt, rfl⟩ := hG x hx
  exact ⟨_, .push hbuilt, rfl⟩

theorem push_outside {p : Bool → Prog (State δ) α} {bs : List UInt8} (hbuilt : Built bs)
    (hp : ∀ c, Outside D (p c)) : Gated D (Begun bs) (uciPushWait D >>= p) fun _ => Gate.IsShut :=
  push_gated (fun _ hg => ⟨bs, hbuilt, hg⟩) hp

/-! ## The calls -/

theorem netUdpClose_outside : Outside D (netUdpClose D) := by
  have hwedged : Outside D (netUdpClose.closeWedged : Prog (State δ) Bool) :=
    store_gated.bind fun _ => pure_outside true
  refine cells_gated.bind fun m => .ite (fun _ => pure_outside _) fun _ => gate_outside hwedged ?_
  refine (Puts.put _).next fun _ => (Puts.put _).next fun _ => cells_gated.bind fun m =>
    (Puts.put _).next fun _ => push_outside (.close m.uciSocketId) fun c => ?_
  refine .ite (fun _ => hwedged) fun _ => uciCheckErr_outside.bind fun err =>
    uciWaitReplyStaged_outside.bind fun _ => .ite (fun _ => hwedged) fun _ => ?_
  refine drainAck_outside.bind fun _ => .ite (fun _ => hwedged) fun _ => store_gated.bind fun _ => ?_
  exact .ite (fun _ => (setLastError_outside _).bind fun _ => pure_outside _) fun _ => pure_outside _

theorem readSocketId_outside : Outside D (readSocketId D) :=
  store_gated.bind fun _ => (uciReadRespBytes_outside _ _).bind fun _ =>
    drainAckAlways_outside.bind fun _ => cells_gated.bind fun _ =>
      .ite (fun _ => (setLastError_outside _).bind fun _ => pure_outside _) fun _ => pure_outside _

theorem uciUdpConnect_outside : Outside D (uciUdpConnect D) := by
  refine gate_outside (pure_outside true) ?_
  refine (Puts.put _).next fun _ => (Puts.put _).next fun _ => cells_gated.bind fun m =>
    (putEndpoint_puts m.netUdpDest).next fun _ => ?_
  have hbuilt : Built ([] ++ [uciTargetNetwork] ++ [uciCmdUdpConnect] ++
      ([byte m.netUdpDest.port 1, byte m.netUdpDest.port 0] ++ dotted m.netUdpDest.ip ++ [0])) := by
    have h := Built.connect m.netUdpDest
    simpa [connectCommand] using h
  refine push_outside hbuilt fun c => .ite (fun _ => pure_outside _) fun _ =>
    uciCheckErr_outside.bind fun _ => .ite (fun _ => ?_) fun _ => ?_
  · exact (setLastError_outside _).bind fun _ => drainAckAlways_outside.bind fun _ => pure_outside _
  refine uciWaitReplyStaged_outside.bind fun _ => .ite (fun _ => pure_outside _) fun _ =>
    uciDrainStatus_outside.bind fun _ => cells_gated.bind fun _ => .ite (fun _ => ?_) fun _ =>
      readSocketId_outside
  exact (setLastError_outside _).bind fun _ => uciDrainResp_outside.bind fun _ =>
    uciAck_outside.bind fun _ => pure_outside _

theorem readResp_outside (max : Nat) : Outside D (readResp D max) :=
  (uciReadRespBytes_outside _ _).bind fun _ => drainAck_outside

theorem nextIface_outside (n idx : Nat) : Outside D (nextIface D n idx) := by
  refine gate_outside (pure_outside _) ?_
  refine (Puts.put _).next fun _ => (Puts.put _).next fun _ => (Puts.put _).next fun _ =>
    push_outside (.ipaddr (lo idx)) fun _ => .ite (fun _ => pure_outside _) fun _ =>
      uciCheckErr_outside.bind fun _ => .ite (fun _ => ?_) fun _ => ?_
  · exact drainAck_outside.bind fun _ => .ite (fun _ => pure_outside _) fun _ => pure_outside _
  refine (readResp_outside 12).bind fun _ => .ite (fun _ => pure_outside _) fun _ =>
    cells_gated.bind fun _ => .ite (fun _ => pure_outside _) fun _ => store_gated.bind fun _ =>
      cells_gated.bind fun _ => .ite (fun _ => ?_) fun _ => ?_
  · exact (setLastError_outside _).bind fun _ => pure_outside _
  · exact (setLastError_outside _).bind fun _ => pure_outside _

theorem netDhcpAcquire_outside : Outside D (netDhcpAcquire D) := by
  refine store_gated.bind fun _ => gate_outside (pure_outside true) ?_
  refine (Puts.put _).next fun _ => (Puts.put _).next fun _ => push_outside .ifaceCount fun _ =>
    .ite (fun _ => pure_outside _) fun _ => uciCheckErr_outside.bind fun _ =>
      .ite (fun _ => drainAck_outside.bind fun _ => pure_outside _) fun _ => ?_
  refine (readResp_outside 1).bind fun _ => .ite (fun _ => pure_outside _) fun _ =>
    cells_gated.bind fun _ => .ite (fun _ => pure_outside _) fun _ =>
      .ite (fun _ => pure_outside _) fun _ => ?_
  refine Obeys.loop (I := fun _ => Gate.IsShut) (fun idx => ?_) 0
  exact (nextIface_outside _ idx).weaken (fun _ h => h) fun r x h => by cases r <;> exact h

theorem writeReply_outside {fail : UInt8 → Prog (State δ) Bool} (hfail : ∀ e, Outside D (fail e)) :
    Outside D (writeReply D fail) := by
  refine store_gated.bind fun _ => (uciReadRespBytes_outside _ _).bind fun _ =>
    drainAck_outside.bind fun _ => .ite (fun _ => pure_outside _) fun _ => cells_gated.bind fun m => ?_
  cases countError m with
  | none => exact pure_outside false
  | some e => exact hfail e

theorem socketWrite_outside : Outside D (socketWrite D) := by
  refine gate_outside (pure_outside true) ?_
  refine (Puts.put _).next fun _ => (Puts.put _).next fun _ => cells_gated.bind fun m =>
    (Puts.put _).next fun _ => cells_gated.bind fun m' => ?_
  refine bodyLoop_next _ fun _ => push_gated (fun g hg => ?_) fun _ => .ite (fun _ => pure_outside _) fun _ =>
    uciCheckErr_outside.bind fun _ => .ite (fun _ => ?_) fun _ => writeReply_outside failWith_outside
  · obtain ⟨data, rfl⟩ := hg
    exact ⟨_, .write m.uciSocketId data, rfl⟩
  · exact (setLastError_outside _).bind fun _ => drainAck_outside.bind fun _ => pure_outside _

theorem spStatusErr_outside (e : UInt8) : Outside D (spStatusErr e : Prog (State δ) Bool) :=
  (setLastError_outside e).bind fun _ => cells_gated.bind fun _ =>
    (Obeys.when (fun _ => setLastError_outside _) fun _ _ h => h).bind fun _ => pure_outside _

theorem completingPart_outside : Outside D (completingPart D) :=
  writeReply_outside fun e => .ite (fun _ => spStatusErr_outside e) fun _ => failWith_outside e

theorem spMore_outside : Outside D (spMore D) := by
  refine store_gated.bind fun _ => uciWaitReplyStaged_outside.bind fun _ =>
    .ite (fun _ => pure_outside _) fun _ => uciSettleStatus_outside.bind fun r => ?_
  cases r with
  | none => exact pure_outside true
  | some status =>
    refine (Obeys.when (fun _ => uciReadRespBytes_outside _ _) fun _ _ h => h).bind fun _ =>
      drainAck_outside.bind fun _ => .ite (fun _ => pure_outside _) fun _ => ?_
    exact cells_gated.bind fun _ => .ite (fun _ => spStatusErr_outside _) fun _ => pure_outside _

theorem uciSendPart_outside : Outside D (uciSendPart D) := by
  refine gate_outside (pure_outside true) ?_
  refine store_gated.bind fun _ => (Puts.put _).next fun _ => (Puts.put _).next fun _ =>
    cells_gated.bind fun m => (Puts.put _).next fun _ => (Puts.put _).next fun _ =>
      (Puts.put _).next fun _ => (Puts.put _).next fun _ => (Puts.put _).next fun _ =>
        store_gated.bind fun _ => ?_
  refine bodyLoop_next _ fun _ => push_gated (fun g hg => ?_) fun _ => .ite (fun _ => pure_outside _) fun _ =>
    uciCheckErr_outside.bind fun _ => .ite (fun _ => ?_) fun _ => cells_gated.bind fun _ =>
      .ite (fun _ => completingPart_outside) fun _ => spMore_outside
  · obtain ⟨data, rfl⟩ := hg
    exact ⟨_, .part m.uciSocketId m.uciChunkOff m.uciSendRem data, rfl⟩
  · exact drainAck_outside.bind fun _ => .ite (fun _ => pure_outside _) fun _ => spStatusErr_outside _

theorem openSocket_outside : Outside D (openSocket D) :=
  cells_gated.bind fun _ => .ite (fun _ => pure_outside _) fun _ => uciUdpConnect_outside.bind fun _ =>
    .ite (fun _ => pure_outside _) fun _ => store_gated.bind fun _ => pure_outside _

theorem netUdpSend_outside (chunked : Bool) (ptr : Nat) : Outside D (netUdpSend D chunked ptr) := by
  refine store_gated.bind fun _ => cells_gated.bind fun m => .ite (fun _ => pure_outside _) fun _ =>
    .ite (fun _ => (setLastError_outside _).bind fun _ => pure_outside _) fun _ => ?_
  refine openSocket_outside.bind fun _ => .ite (fun _ => pure_outside _) fun _ =>
    .ite (fun _ => store_gated.bind fun _ => ?_) fun _ => socketWrite_outside
  refine Obeys.loop (I := fun _ => Gate.IsShut) (fun _ => ?_) ()
  refine uciSendPart_outside.bind fun _ => .ite (fun _ => .pure _ fun _ h => h) fun _ =>
    cells_gated.bind fun _ => .ite (fun _ => .pure _ fun _ h => h) fun _ => .pure _ fun _ h => h

theorem hdrLoop_outside (left y : Nat) : Outside D (hdrLoop D left y) := by
  induction left generalizing y with
  | zero => exact pure_outside true
  | succ left ih =>
    refine Queue.data.announce.bind fun v => .ite (fun hv => ?_) fun hv => ?_
    · exact .pure _ fun x hx => hx.2 hv
    · refine Obeys.weaken (G := (· = .data)) ?_ (fun x hx => hx.1 hv) fun _ _ h => h
      exact Queue.data.take.bind fun _ => store_gated.bind fun _ => ih (y + 1)

theorem blockEnd_outside (o : Operand) : Outside D (blockEnd D o) := by
  refine cells_gated.bind fun _ => .ite (fun _ => pure_outside _) fun _ =>
    uciSettleStatus_outside.bind fun r => ?_
  cases r with
  | none => exact pure_outside _
  | some status =>
    refine .ite (fun _ => pure_outside _) fun _ => .ite (fun _ => ?_) fun _ =>
      .ite (fun _ => ?_) fun _ => store_gated.bind fun _ => pure_outside _
    · exact uciAck_outside.bind fun _ => pure_outside _
    · exact uciWaitReplyStaged_outside.bind fun _ => .ite (fun _ => pure_outside _) fun _ =>
        pure_outside _

theorem byteLoop_outside (o : Operand) : Outside D (byteLoop D o) := by
  refine cells_gated.bind fun _ => .ite (fun _ => pure_outside _) fun _ =>
    Queue.data.announce.bind fun v => .ite (fun hv => ?_) fun hv => ?_
  · exact (blockEnd_outside o).weaken (fun x hx => hx.2 hv) fun _ _ h => h
  · refine Obeys.weaken (G := (· = .data)) ?_ (fun x hx => hx.1 hv) fun _ _ h => h
    exact Queue.data.take.bind fun _ => store_gated.bind fun _ => store_gated.bind fun _ =>
      pure_outside _

theorem hdrDone_outside (buf : Nat) : Outside D (hdrDone D buf) := by
  refine cells_gated.bind fun _ => .ite (fun _ => ?_) fun _ => .ite (fun _ => ?_) fun _ => ?_
  · exact drainAckAlways_outside.bind fun _ => pure_outside _
  · exact drainAckAlways_outside.bind fun _ => (setLastError_outside _).bind fun _ => pure_outside _
  refine store_gated.bind fun _ => cells_gated.bind fun _ => .ite (fun _ => ?_) fun _ => ?_
  · exact drainAckAlways_outside.bind fun _ => pure_outside _
  have hbytes : Outside D (.loop (byteLoop D) (⟨buf, 0⟩ : Operand)) := by
    refine Obeys.loop (I := fun _ => Gate.IsShut) (fun o => ?_) _
    exact (byteLoop_outside o).weaken (fun _ h => h) fun r x h => by cases r <;> exact h
  refine hbytes.bind fun _ => .ite (fun _ => ?_) fun _ => ?_
  · exact drainAckAlways_outside.bind fun _ => pure_outside _
  · exact drainAckAlways_outside.bind fun _ => store_gated.bind fun _ => pure_outside _

theorem netPoll_outside (buf : Nat) : Outside D (netPoll D buf) := by
  refine cells_gated.bind fun _ => .ite (fun _ => pure_outside _) fun _ => cells_gated.bind fun _ =>
    .ite (fun _ => pure_outside _) fun _ => gate_outside (pure_outside true) ?_
  refine (Puts.put _).next fun _ => (Puts.put _).next fun _ => cells_gated.bind fun m =>
    (Puts.put _).next fun _ => (Puts.put _).next fun _ => (Puts.put _).next fun _ =>
      push_outside (.read m.uciSocketId) fun _ => .ite (fun _ => pure_outside _) fun _ => ?_
  have hfail : Outside D (pollFail D) := drainAckAlways_outside.bind fun _ => pure_outside _
  refine uciCheckErr_outside.bind fun _ => .ite (fun _ => (setLastError_outside _).bind fun _ => hfail)
    fun _ => uciWaitReplyStaged_outside.bind fun _ => .ite (fun _ => hfail) fun _ => ?_
  exact (hdrLoop_outside 2 0).bind fun _ => .ite (fun _ => hdrDone_outside buf) fun _ =>
    drainAckAlways_outside.bind fun _ => pure_outside _

/-- A call through `net_abi.inc`, once `net_init` has brought the interface up. -/
inductive Call
  | netDhcpAcquire
  | netUdpSend (chunked : Bool) (ptr : Nat)
  | netPoll (buf : Nat)
  | netUdpClose

/-- The routine behind a call. -/
def Call.prog (D : Device δ) : Call → Prog (State δ) Bool
  | .netDhcpAcquire => C64WireGuard.Uci.netDhcpAcquire D
  | .netUdpSend chunked ptr => C64WireGuard.Uci.netUdpSend D chunked ptr
  | .netPoll buf => C64WireGuard.Uci.netPoll D buf
  | .netUdpClose => C64WireGuard.Uci.netUdpClose D

theorem Call.outside (c : Call) : Outside D (c.prog D) := by
  cases c with
  | netDhcpAcquire => exact netDhcpAcquire_outside
  | netUdpSend chunked ptr => exact netUdpSend_outside chunked ptr
  | netPoll buf => exact netPoll_outside buf
  | netUdpClose => exact netUdpClose_outside

/-- Calls one after the other, however they end. In between, the cells may take any value. -/
inductive Calls (D : Device δ) (s : State δ) : State δ → Prop
  | start : Calls D s s
  | edit {t : State δ} (h : Calls D s t) (m : UciMem) : Calls D s { t with mem := m }
  | call {t t' : State δ} (h : Calls D s t) (c : Call) {failed : Bool}
      (returns : (c.prog D).Returns t failed t') : Calls D s t'

/-- Every run of calls keeps to the gate, on every device. -/
theorem calls_gated {s s' : State δ} (h : Calls D s s') :
    ∃ es, s'.log = s.log ++ es ∧ Path D.Sees s.dev es s'.dev ∧ Path Gate.Step .shut es .shut := by
  induction h with
  | start => exact ⟨[], (List.append_nil _).symm, .nil _, .nil _⟩
  | edit _ m ih => exact ih
  | call _ c hreturns ih =>
    obtain ⟨es, hlog, hsees, hpath⟩ := ih
    obtain ⟨fs, ⟨hlog', hsees'⟩, hgate⟩ := c.outside _ _ _ hreturns
    obtain ⟨g, hpath', rfl⟩ := hgate .shut rfl
    exact ⟨es ++ fs, by rw [hlog', hlog, List.append_assoc], hsees.trans hsees', hpath.trans hpath'⟩

/-! ### Read off the log -/

/-- What opens the gate: two idle reads of the status, the first of them without an error unless the
error is cleared after them. -/
inductive Opening : List Access → Prop
  | plain {v w : UInt8} (first : IdleStatus v) (clear : v &&& uciStatError = 0)
      (second : IdleStatus w) : Opening [.read .uciStatus v, .read .uciStatus w]
  | cleared {v w : UInt8} (first : IdleStatus v) (second : IdleStatus w) :
      Opening [.read .uciStatus v, .read .uciStatus w, .write .uciControl uciCtrlClrErr]

/-- The writes of the bytes of a command. -/
def puts (bs : List UInt8) : List Access := bs.map (Access.write .uciCmdData)

/-- The push. -/
abbrev push : Access := .write .uciControl uciCtrlPushCmd

/-- What the gate says of the accesses so far. -/
def Gate.Told : Gate → List Access → Prop
  | .shut, _ => True
  | .ajar clear, es => ∃ older v, es = older ++ [.read .uciStatus v] ∧ IdleStatus v ∧
      (clear = true → v &&& uciStatError = 0)
  | .opened true bs, es => ∃ older opening, es = older ++ opening ++ puts bs ∧ Opening opening
  | .opened false bs, es => bs = [] ∧ ∃ older v w,
      es = older ++ [.read .uciStatus v, .read .uciStatus w] ∧ IdleStatus v ∧ IdleStatus w
  | .data, es => ∃ older v, es = older ++ [.read .uciStatus v] ∧ v &&& uciStatDataAv ≠ 0
  | .line, es => ∃ older v, es = older ++ [.read .uciStatus v] ∧ v &&& uciStatStatAv ≠ 0

theorem Gate.Told.step {es : List Access} {g g' : Gate} {e : Access} (h : g.Told es)
    (hstep : Gate.Step g e g') : g'.Told (es ++ [e]) := by
  cases hstep with
  | once idle => exact ⟨es, _, rfl, idle, fun hclear => of_decide_eq_true hclear⟩
  | @twice clear w idle =>
    obtain ⟨older, v, rfl, hidle, hclear⟩ := h
    cases clear with
    | false => exact ⟨rfl, older, v, w, by simp, hidle, idle⟩
    | true => exact ⟨older, _, by simp [puts], .plain hidle (hclear rfl) idle⟩
  | clear =>
    obtain ⟨-, older, v, w, rfl, hv, hw⟩ := h
    exact ⟨older, _, by simp [puts], .cleared hv hw⟩
  | put b =>
    obtain ⟨older, opening, rfl, hopening⟩ := h
    exact ⟨older, opening, by simp [puts], hopening⟩
  | push built => trivial
  | dataAv announced => exact ⟨es, _, rfl, announced⟩
  | statAv announced => exact ⟨es, _, rfl, announced⟩
  | takeData b => trivial
  | takeLine b => trivial
  | shut harmless => trivial
  | relapse harmless => trivial

theorem told_of_path {es : List Access} {g : Gate} (h : Path Gate.Step .shut es g) : g.Told es := by
  have hfirst : Gate.shut.Told [] := trivial
  exact Path.invariant (fun _ _ _ _ htold hstep => htold.step hstep) hfirst h

/-- What has been begun is brought to its push. -/
theorem pushed_of_path {bs : List UInt8} {es : List Access}
    (h : Path Gate.Step (.opened true bs) es .shut) :
    ∃ more newer, es = puts more ++ push :: newer ∧ Built (bs ++ more) := by
  induction es generalizing bs with
  | nil => cases h
  | cons e es ih =>
    obtain ⟨g, hstep, hes⟩ := h
    cases hstep with
    | put b =>
      obtain ⟨more, newer, rfl, hbuilt⟩ := ih hes
      exact ⟨b :: more, newer, rfl, by simpa using hbuilt⟩
    | push built => exact ⟨[], es, rfl, by simpa using built⟩

/-- **The adapter keeps to the gate**, in every run of calls on every device, however its waits end:
a push comes after the bytes of one whole command and nothing else, and these come straight after two
reads of an idle status; no byte of a command is written that is not part of such a command; and every
byte of a reply is read straight after a status that announces it. -/
theorem commands_gated {s s' : State δ} (h : Calls D s s') :
    ∃ es, s'.log = s.log ++ es ∧
      (∀ before after, es = before ++ push :: after → ∃ older opening bs,
        before = older ++ opening ++ puts bs ∧ Opening opening ∧ Built bs) ∧
      (∀ before b after, es = before ++ .write .uciCmdData b :: after → ∃ older opening bs more newer,
        before = older ++ opening ++ puts bs ∧ Opening opening ∧
        after = puts more ++ push :: newer ∧ Built (bs ++ b :: more)) ∧
      (∀ before b after, es = before ++ .read .uciRespData b :: after → ∃ older v,
        before = older ++ [.read .uciStatus v] ∧ v &&& uciStatDataAv ≠ 0) ∧
      (∀ before b after, es = before ++ .read .uciStatusData b :: after → ∃ older v,
        before = older ++ [.read .uciStatus v] ∧ v &&& uciStatStatAv ≠ 0) := by
  obtain ⟨es, hlog, -, hpath⟩ := calls_gated h
  have hat : ∀ {before e after}, es = before ++ e :: after → ∃ g g', g.Told before ∧
      Gate.Step g e g' ∧ Path Gate.Step g' after .shut := by
    rintro before e after rfl
    obtain ⟨g, hbefore, g', hstep, hafter⟩ := Path.append_iff.mp hpath
    exact ⟨g, g', told_of_path hbefore, hstep, hafter⟩
  refine ⟨es, hlog, ?_, ?_, ?_, ?_⟩
  · intro before after heq
    obtain ⟨g, g', htold, hstep, -⟩ := hat heq
    cases hstep with
    | push built =>
      obtain ⟨older, opening, rfl, hopening⟩ := htold
      exact ⟨older, opening, _, rfl, hopening, built⟩
    | shut harmless => exact absurd harmless (by simp [Access.Harmless]; decide)
    | relapse harmless => exact absurd harmless (by simp [Access.Harmless]; decide)
  · intro before b after heq
    obtain ⟨g, g', htold, hstep, hafter⟩ := hat heq
    cases hstep with
    | put b =>
      obtain ⟨older, opening, rfl, hopening⟩ := htold
      obtain ⟨more, newer, rfl, hbuilt⟩ := pushed_of_path hafter
      exact ⟨older, opening, _, more, newer, rfl, hopening, rfl, by simpa using hbuilt⟩
    | shut harmless => exact absurd harmless (by simp [Access.Harmless])
    | relapse harmless => exact absurd harmless (by simp [Access.Harmless])
  · intro before b after heq
    obtain ⟨g, g', htold, hstep, -⟩ := hat heq
    cases hstep with
    | takeData b => exact htold
    | shut harmless => exact absurd harmless (by simp [Access.Harmless])
    | relapse harmless => exact absurd harmless (by simp [Access.Harmless])
  · intro before b after heq
    obtain ⟨g, g', htold, hstep, -⟩ := hat heq
    cases hstep with
    | takeLine b => exact htold
    | shut harmless => exact absurd harmless (by simp [Access.Harmless])
    | relapse harmless => exact absurd harmless (by simp [Access.Harmless])

/-- Cells with socket 7 open. -/
def openMem : UciMem := { UciMem.start with uciSocketOpen := 1, uciSocketId := 7 }

theorem close_returns : ((netUdpClose scriptDevice).run 30 ⟨openMem, [], []⟩).isSome := by
  decide +kernel

/-- A close on a device that reads as zero. -/
theorem commands_gated_close : ∃ es,
    (((netUdpClose scriptDevice).run 30 ⟨openMem, [], []⟩).get close_returns).2.log = [] ++ es ∧
    ∀ before after, es = before ++ push :: after → ∃ older opening bs,
      before = older ++ opening ++ puts bs ∧ Opening opening ∧ Built bs := by
  obtain ⟨es, hlog, hpush, -⟩ :=
    commands_gated (.call .start .netUdpClose (returns_get close_returns))
  exact ⟨es, hlog, hpush⟩

end C64WireGuard.Uci
