import C64WireGuard.Uci.Transcript

/-!
# What a call does to the socket

Each routine behind `net_abi.inc` is a sequence of exchanges, and what matters of each is whether it
writes to the socket, closes it, opens one, or leaves it alone (`SocketStep`). Every later statement
about the socket is derived from these steps.
-/

namespace C64WireGuard.Uci

open Bytes

variable {δ α ι : Type} {D : Device δ} {s s' : State δ}

/-! ## Steps -/

/-- `uci_socket_open` and `uci_socket_id`. -/
structure Socket where
  isOpen : UInt8
  id : UInt8
deriving DecidableEq

/-- The cells of the socket. -/
def UciMem.socket (m : UciMem) : Socket := ⟨m.uciSocketOpen, m.uciSocketId⟩

theorem socket_of_core {m m' : UciMem} (h : m'.core = m.core) : m'.socket = m.socket :=
  (congrArg UciMem.socket h :)

/-- **What one exchange does to the socket.** A connect is allowed to `dest` only, and a write only
when there is a `dest`. -/
inductive SocketStep (dest : Option Endpoint) : Socket → List Access → Socket → Prop
  | other {k : Socket} {cmd : List UInt8} {es : List Access} (exchange : Exchange cmd es)
      (connect : ¬ IsConnect cmd) (close : ¬ IsClose cmd) (write : ¬ IsWrite cmd) :
      SocketStep dest k es k
  | write {k : Socket} {ep : Endpoint} {cmd : List UInt8} {es : List Access} (isOpen : k.isOpen ≠ 0)
      (allowed : dest = some ep) (exchange : Exchange cmd es) (target : WriteTo k.id cmd) :
      SocketStep dest k es k
  | close {k : Socket} {es : List Access} (isOpen : k.isOpen ≠ 0)
      (exchange : Exchange (closeCommand k.id) es)
      (pushes : .expired ∉ es → pushed es = [closeCommand k.id]) : SocketStep dest k es ⟨0, 0⟩
  | opened {k : Socket} {ep : Endpoint} {es : List Access} {id : UInt8} (closed : k.isOpen = 0)
      (allowed : dest = some ep) (exchange : Exchange (connectCommand ep) es)
      (pushes : pushed es = [connectCommand ep]) (id_ne : id ≠ 0)
      (reply : (readsOf .uciRespData es).head? = some id) : SocketStep dest k es ⟨1, id⟩
  | refused {k : Socket} {ep : Endpoint} {es : List Access} {id : UInt8} (closed : k.isOpen = 0)
      (allowed : dest = some ep) (exchange : Exchange (connectCommand ep) es)
      (why : .expired ∈ es ∨ Refusal es) : SocketStep dest k es ⟨0, id⟩
  | forget {k : Socket} {id : UInt8} (closed : k.isOpen = 0) : SocketStep dest k [] ⟨0, id⟩

/-- Steps in a row. -/
inductive SocketSteps (dest : Option Endpoint) : Socket → List Access → Socket → Prop
  | refl (k : Socket) : SocketSteps dest k [] k
  | tail {k₁ k₂ k₃ : Socket} {es fs : List Access} (steps : SocketSteps dest k₁ es k₂)
      (step : SocketStep dest k₂ fs k₃) : SocketSteps dest k₁ (es ++ fs) k₃

namespace SocketSteps

variable {dest : Option Endpoint} {k₁ k₂ k₃ : Socket} {es fs : List Access}

theorem one (h : SocketStep dest k₁ es k₂) : SocketSteps dest k₁ es k₂ := by
  rw [← List.nil_append es]
  exact .tail (.refl k₁) h

theorem trans (h₁ : SocketSteps dest k₁ es k₂) (h₂ : SocketSteps dest k₂ fs k₃) :
    SocketSteps dest k₁ (es ++ fs) k₃ := by
  induction h₂ with
  | refl => rwa [List.append_nil]
  | tail _ step ih =>
    rw [← List.append_assoc]
    exact .tail ih step

/-- A stretch that pushes nothing. -/
theorem still (k : Socket) (h : Still es) : SocketSteps dest k es k := by
  have hsilent : Exchange [] es := .silent h
  exact .one (.other hsilent (by decide) (by decide) (by decide))

/-- Writes, one after the other. -/
theorem writes {segs : List (List Access)} {ep : Endpoint} (hopen : k₁.isOpen ≠ 0)
    (h : ∀ es ∈ segs, ∃ cmd, Exchange cmd es ∧ WriteTo k₁.id cmd) :
    SocketSteps (some ep) k₁ segs.flatten k₁ := by
  induction segs with
  | nil => exact .refl k₁
  | cons es segs ih =>
    obtain ⟨cmd, hes, hto⟩ := h es List.mem_cons_self
    rw [List.flatten_cons]
    exact (SocketSteps.one (.write hopen rfl hes hto)).trans
      (ih fun fs hfs => h fs (List.mem_cons_of_mem _ hfs))

/-- What needs no destination can be done with one. -/
theorem mono (h : SocketSteps none k₁ es k₂) : SocketSteps dest k₁ es k₂ := by
  induction h with
  | refl => exact .refl _
  | tail _ step ih =>
    refine .tail ih ?_
    cases step with
    | other exchange connect close write => exact .other exchange connect close write
    | close isOpen exchange pushes => exact .close isOpen exchange pushes
    | forget closed => exact .forget closed
    | write _ allowed => cases allowed
    | opened _ allowed => cases allowed
    | refused _ allowed => cases allowed

end SocketSteps

/-- `uci_socket_open` is 0 or 1. -/
def Socket.Flag (k : Socket) : Prop := k.isOpen = 0 ∨ k.isOpen = 1

theorem SocketSteps.flag {dest : Option Endpoint} {k k' : Socket} {es : List Access}
    (h : SocketSteps dest k es k') (hk : k.Flag) : k'.Flag := by
  induction h with
  | refl => exact hk
  | tail _ step ih =>
    cases step with
    | other => exact ih
    | write => exact ih
    | close => exact Or.inl rfl
    | opened => exact Or.inr rfl
    | refused => exact Or.inl rfl
    | forget => exact Or.inl rfl

/-- The steps of a run. -/
def Steps (dest : Option Endpoint) (s s' : State δ) : Prop :=
  ∃ es, s'.log = s.log ++ es ∧ SocketSteps dest s.mem.socket es s'.mem.socket

instance (dest : Option Endpoint) : IsPreorder (State δ) (Steps dest) where
  refl s := ⟨[], (List.append_nil _).symm, .refl _⟩
  trans := by
    rintro s₁ s₂ s₃ ⟨es, hes, h₁⟩ ⟨fs, hfs, h₂⟩
    exact ⟨es ++ fs, by rw [hfs, hes, List.append_assoc], h₁.trans h₂⟩

theorem Steps.of_eq {dest : Option Endpoint} (hlog : s'.log = s.log)
    (hsocket : s'.mem.socket = s.mem.socket) : Steps dest s s' :=
  ⟨[], by rw [hlog, List.append_nil], by rw [hsocket]; exact .refl _⟩

/-! ## Closing, receiving, bring-up -/

theorem netUdpClose_steps {c : Bool} (h : (netUdpClose D).Returns s c s') :
    Steps none s s' ∧ s'.mem.uciSocketOpen = 0 := by
  by_cases hopen : s.mem.uciSocketOpen = 0
  · rw [netUdpClose, Prog.returns_bind] at h
    obtain ⟨m, s₁, hcells, h⟩ := h
    obtain ⟨rfl, rfl⟩ := cells_spec hcells
    rw [if_pos hopen, Prog.returns_pure] at h
    obtain ⟨-, rfl⟩ := h
    exact ⟨.of_eq rfl rfl, hopen⟩
  · obtain ⟨es, hes, hexchange, hclosed, -, hpushes⟩ := netUdpClose_spec hopen h
    have hsocket : s'.mem.socket = ⟨0, 0⟩ := (congrArg UciMem.socket hclosed :)
    refine ⟨⟨es, hes, ?_⟩, (congrArg Socket.isOpen hsocket :)⟩
    rw [hsocket]
    exact .one (.close hopen hexchange hpushes)

theorem netPoll_steps {buf : Nat} {c : Bool} (h : (netPoll D buf).Returns s c s') :
    Steps none s s' := by
  obtain ⟨es, hes, hreceived⟩ := netPoll_spec h
  have hsocket : s'.mem.socket = s.mem.socket := (congrArg UciMem.socket hreceived.kept.others :)
  refine ⟨es, hes, ?_⟩
  rw [hsocket]
  exact .one (.other hreceived.exchange (by simp [IsConnect, readCommand]; decide)
    (by simp [IsClose, readCommand]; decide) (by simp [IsWrite, readCommand]; decide))

/-- Accesses that push nothing, with the socket left alone. -/
def Mild (s s' : State δ) : Prop :=
  ∃ es, s'.log = s.log ++ es ∧ Quiet es ∧ s'.mem.socket = s.mem.socket

instance : IsPreorder (State δ) Mild where
  refl s := ⟨[], (List.append_nil _).symm, quiet_nil, rfl⟩
  trans := by
    rintro s₁ s₂ s₃ ⟨es, hes, hquiet, hsocket⟩ ⟨fs, hfs, hquiet', hsocket'⟩
    exact ⟨es ++ fs, by rw [hfs, hes, List.append_assoc], by simp [hquiet, hquiet'],
      hsocket'.trans hsocket⟩

theorem store_mild {f : UciMem → UciMem} (hf : ∀ m, (f m).socket = m.socket) :
    (store f : Prog (State δ) Unit).Within Mild := by
  intro s u s' h
  obtain ⟨hlog, hmem, -⟩ := store_spec h
  exact ⟨[], by rw [hlog, List.append_nil], quiet_nil, by rw [hmem, hf]⟩

theorem cells_mild : (cells : Prog (State δ) UciMem).Within Mild := by
  intro s m s' h
  obtain ⟨-, rfl⟩ := cells_spec h
  exact refl_of Mild s

theorem setLastError_mild (e : UInt8) : (setLastError e : Prog (State δ) Unit).Within Mild :=
  store_mild fun _ => rfl

theorem uciCheckErr_mild : (uciCheckErr D).Within Mild := by
  intro s c s' h
  obtain ⟨v, -, hmem, hlog⟩ := uciCheckErr_spec h
  refine ⟨_, hlog, ?_, by rw [hmem]⟩
  split
  · exact Calm.quiet (by simp)
  · simp

theorem drainAck_mild : (drainAck D).Within Mild := by
  intro s c s' h
  obtain ⟨es, hes, hquiet, -, hcore, -⟩ := drainAck_spec h
  exact ⟨es, hes, hquiet, socket_of_core hcore⟩

theorem socket_storeFrom {dst : Nat → UInt8 → UciMem → UciMem}
    (hdst : ∀ i b m, (dst i b m).socket = m.socket) (i : Nat) (bs : List UInt8) (m : UciMem) :
    (storeFrom dst i bs m).socket = m.socket := by
  induction bs generalizing i m with
  | nil => rfl
  | cons b bs ih => rw [storeFrom, ih, hdst]

theorem uciReadRespBytes_mild {max : Nat} {dst : Nat → UInt8 → UciMem → UciMem}
    (hdst : ∀ i b m, (dst i b m).socket = m.socket) : (uciReadRespBytes D max dst).Within Mild := by
  intro s u s' h
  obtain ⟨es, hes, hquiet, -, -, -, -, hmem⟩ := uciReadRespBytes_spec h
  refine ⟨es, hes, hquiet, ?_⟩
  rw [hmem]
  exact socket_storeFrom hdst 0 _ s.mem

theorem readResp_mild (max : Nat) : (readResp D max).Within Mild := by
  unfold readResp
  refine Prog.Within.bind (uciReadRespBytes_mild ?_) fun _ => drainAck_mild
  intro i b m
  rfl

/-- **A command that has nothing to do with the socket**: the gate, its bytes and its push, and a
rest that pushes nothing. -/
theorem ask_steps {dest : Option Endpoint} {cmd : List UInt8} {c₁ c₂ : Bool} {s₁ s₂ s₃ : State δ}
    (hconnect : ¬ IsConnect cmd) (hclose : ¬ IsClose cmd) (hwrite : ¬ IsWrite cmd)
    (hidle : (uciWaitIdle D).Returns s c₁ s₁)
    (hput : s₂.log = s₁.log ++ commandWrites cmd ∧ s₂.mem = s₁.mem)
    (hpush : (uciPushWait D).Returns s₂ c₂ s₃) (hrest : Mild s₃ s') : Steps dest s s' := by
  obtain ⟨es₁, hes₁, hidled⟩ := uciWaitIdle_spec hidle
  obtain ⟨es₃, hes₃, hpushed⟩ := uciPushWait_spec hpush
  obtain ⟨fs, hfs, hquiet, hsocket⟩ := hrest
  have hafter : Quiet (es₃ ++ fs) := by simp [hpushed.quiet, hquiet]
  refine ⟨es₁ ++ commandWrites cmd ++ .write .uciControl uciCtrlPushCmd :: (es₃ ++ fs), ?_, ?_⟩
  · rw [hfs, hes₃, hput.1, hes₁]
    simp only [List.append_assoc, List.cons_append]
  · have hsocket' : s'.mem.socket = s.mem.socket := by
      rw [hsocket, socket_of_core hpushed.core, hput.2, socket_of_core hidled.core]
    rw [hsocket']
    exact .one (.other (.command hidled.still hafter) hconnect hclose hwrite)

/-- A gate that gives up. -/
theorem uciWaitIdle_steps {dest : Option Endpoint} {c : Bool}
    (h : (uciWaitIdle D).Returns s c s') : Steps dest s s' := by
  obtain ⟨es, hes, hidled⟩ := uciWaitIdle_spec h
  refine ⟨es, hes, ?_⟩
  rw [socket_of_core hidled.core]
  exact .still _ hidled.still

/-- One interface is asked for its address. -/
theorem nextIface_steps (n idx : Nat) : (nextIface D n idx).Within (Steps none) := by
  intro s r s' h
  obtain ⟨c₁, s₁, hidle, h⟩ := Prog.returns_bind.mp h
  rcases Prog.returns_ite.mp h with ⟨-, h⟩ | ⟨-, h⟩
  · obtain ⟨-, rfl⟩ := Prog.returns_pure.mp h
    exact uciWaitIdle_steps hidle
  obtain ⟨u₂, s₂, hput₂, h⟩ := Prog.returns_bind.mp h
  obtain ⟨u₃, s₃, hput₃, h⟩ := Prog.returns_bind.mp h
  obtain ⟨u₄, s₄, hput₄, h⟩ := Prog.returns_bind.mp h
  obtain ⟨c₅, s₅, hpush, h⟩ := Prog.returns_bind.mp h
  obtain ⟨hlog₂, hmem₂⟩ := sta_spec hput₂
  obtain ⟨hlog₃, hmem₃⟩ := sta_spec hput₃
  obtain ⟨hlog₄, hmem₄⟩ := sta_spec hput₄
  have hput : s₄.log = s₁.log ++ commandWrites [uciTargetNetwork, uciCmdGetIpaddr, lo idx] ∧
      s₄.mem = s₁.mem := by
    refine ⟨?_, by rw [hmem₄, hmem₃, hmem₂]⟩
    rw [hlog₄, hlog₃, hlog₂]
    simp [commandWrites]
  refine ask_steps (by simp [IsConnect]; decide) (by simp [IsClose]; decide)
    (by simp [IsWrite]; decide) hidle hput hpush ?_
  refine (?_ : Prog.Within Mild _) s₅ r s' h
  refine .ite (.pure _) (uciCheckErr_mild.bind fun _ => .ite ?_ ?_)
  · exact drainAck_mild.bind fun _ => .ite (.pure _) (.pure _)
  · refine (readResp_mild 12).bind fun _ => .ite (.pure _) (cells_mild.bind fun _ =>
      .ite (.pure _) (Prog.Within.bind (store_mild ?_) fun _ => cells_mild.bind fun _ => ?_))
    · intro m
      rfl
    · exact .ite ((setLastError_mild _).bind fun _ => .pure _)
        ((setLastError_mild _).bind fun _ => .pure _)

theorem netDhcpAcquire_steps : (netDhcpAcquire D).Within (Steps none) := by
  intro s c s' h
  obtain ⟨u₀, s₀, hzero, h⟩ := Prog.returns_bind.mp h
  obtain ⟨hlog₀, hmem₀, -⟩ := store_spec hzero
  have hstart : Steps none s s₀ := .of_eq hlog₀ (by rw [hmem₀]; rfl)
  refine trans_of (Steps none) hstart ?_
  obtain ⟨c₁, s₁, hidle, h⟩ := Prog.returns_bind.mp h
  rcases Prog.returns_ite.mp h with ⟨-, h⟩ | ⟨-, h⟩
  · obtain ⟨-, rfl⟩ := Prog.returns_pure.mp h
    exact uciWaitIdle_steps hidle
  obtain ⟨u₂, s₂, hput₂, h⟩ := Prog.returns_bind.mp h
  obtain ⟨u₃, s₃, hput₃, h⟩ := Prog.returns_bind.mp h
  obtain ⟨c₄, s₄, hpush, h⟩ := Prog.returns_bind.mp h
  obtain ⟨hlog₂, hmem₂⟩ := sta_spec hput₂
  obtain ⟨hlog₃, hmem₃⟩ := sta_spec hput₃
  have hput : s₃.log = s₁.log ++ commandWrites [uciTargetNetwork, uciCmdGetIfaceCount] ∧
      s₃.mem = s₁.mem := by
    refine ⟨?_, by rw [hmem₃, hmem₂]⟩
    rw [hlog₃, hlog₂]
    simp [commandWrites]
  have hask : ∀ {t : State δ}, Mild s₄ t → Steps none s₀ t := fun hrest =>
    ask_steps (by simp [IsConnect]; decide) (by simp [IsClose]; decide) (by simp [IsWrite]; decide)
      hidle hput hpush hrest
  rcases Prog.returns_ite.mp h with ⟨-, h⟩ | ⟨-, h⟩
  · obtain ⟨-, rfl⟩ := Prog.returns_pure.mp h
    exact hask (refl_of Mild _)
  obtain ⟨c₅, s₅, hcheck, h⟩ := Prog.returns_bind.mp h
  have hcheck := uciCheckErr_mild _ _ _ hcheck
  rcases Prog.returns_ite.mp h with ⟨-, h⟩ | ⟨-, h⟩
  · have hdrain : (drainAck D >>= fun _ => pure true).Within Mild :=
      drainAck_mild.bind fun _ => .pure _
    exact hask (trans_of Mild hcheck (hdrain _ _ _ h))
  obtain ⟨c₆, s₆, hread, h⟩ := Prog.returns_bind.mp h
  have hread := trans_of Mild hcheck (readResp_mild 1 _ _ _ hread)
  rcases Prog.returns_ite.mp h with ⟨-, h⟩ | ⟨-, h⟩
  · obtain ⟨-, rfl⟩ := Prog.returns_pure.mp h
    exact hask hread
  refine trans_of (Steps none) (hask hread) ?_
  refine (?_ : Prog.Within (Steps none) _) s₆ c s' h
  have hcells : (cells : Prog (State δ) UciMem).Within (Steps none) := by
    intro t m t' h
    obtain ⟨-, rfl⟩ := cells_spec h
    exact refl_of (Steps none) t
  exact hcells.bind fun _ => .ite (.pure _) (.ite (.pure _) (.loop (nextIface_steps _) 0))

/-! ## `net_init` -/

/-- Accesses that push nothing and read nothing of a reply, with the socket left alone. -/
def Hushed (s s' : State δ) : Prop :=
  ∃ es, s'.log = s.log ++ es ∧ Still es ∧ s'.mem.socket = s.mem.socket

instance : IsPreorder (State δ) Hushed where
  refl s := ⟨[], (List.append_nil _).symm, still_nil, rfl⟩
  trans := by
    rintro s₁ s₂ s₃ ⟨es, hes, hstill, hsocket⟩ ⟨fs, hfs, hstill', hsocket'⟩
    exact ⟨es ++ fs, by rw [hfs, hes, List.append_assoc], hstill.append hstill',
      hsocket'.trans hsocket⟩

theorem Hushed.steps {dest : Option Endpoint} (h : Hushed s s') : Steps dest s s' := by
  obtain ⟨es, hes, hstill, hsocket⟩ := h
  refine ⟨es, hes, ?_⟩
  rw [hsocket]
  exact .still _ hstill

theorem lda_hushed {r : ReadReg} (hdata : r ≠ .uciRespData) (hstatus : r ≠ .uciStatusData) :
    (lda D r).Within Hushed := by
  intro s v s' h
  obtain ⟨hlog, hmem⟩ := lda_spec h
  exact ⟨_, hlog, ⟨by simp, by simp [hdata], by simp [hstatus]⟩, by rw [hmem]⟩

theorem sta_hushed {r : WriteReg} {v : UInt8} (h : (Access.write r v).Quiet) :
    (sta D r v).Within Hushed := by
  intro s u s' hret
  obtain ⟨hlog, hmem⟩ := sta_spec hret
  exact ⟨_, hlog, ⟨by simpa using h, by simp, by simp⟩, by rw [hmem]⟩

theorem setLastError_hushed (e : UInt8) : (setLastError e : Prog (State δ) Unit).Within Hushed := by
  intro s u s' h
  obtain ⟨hlog, hmem⟩ := setLastError_spec h
  exact ⟨[], by rw [hlog, List.append_nil], still_nil, by rw [hmem]; rfl⟩

theorem readTenths_hushed : (readTenths D).Within Hushed :=
  (lda_hushed (by decide) (by decide)).bind fun _ => lda_hushed (by decide) (by decide)

theorem tsLoop_hushed (first : UInt8) (polls : Nat) : (tsLoop D first polls).Within Hushed := by
  induction polls with
  | zero => exact (setLastError_hushed netErrTimebaseStopped).bind fun _ => .pure _
  | succ polls ih => exact readTenths_hushed.bind fun _ => .ite (.pure _) ih

theorem uciTodStart_hushed : (uciTodStart D).Within Hushed := by
  refine (lda_hushed (by decide) (by decide)).bind fun _ => (sta_hushed ?_).bind fun _ =>
    (sta_hushed ?_).bind fun _ => (sta_hushed ?_).bind fun _ => (sta_hushed ?_).bind fun _ =>
      (sta_hushed ?_).bind fun _ => readTenths_hushed.bind fun _ => tsLoop_hushed _ _
  all_goals trivial

/-- **`net_init`** closes a socket that is open and forgets it. -/
theorem netInit_steps {c : Bool} (hopen : s.mem.socket.Flag)
    (h : (netInit D).Returns s c s') : Steps none s s' := by
  obtain ⟨id, s₁, hid, h⟩ := Prog.returns_bind.mp h
  have hid := lda_hushed (by decide) (by decide) _ _ _ hid
  rcases Prog.returns_ite.mp h with ⟨-, h⟩ | ⟨-, h⟩
  · have herr : (setLastError uciErrNotPresent >>= fun _ => pure true : Prog (State δ) Bool).Within
        Hushed := (setLastError_hushed _).bind fun _ => .pure _
    exact (trans_of Hushed hid (herr _ _ _ h)).steps
  obtain ⟨c₂, s₂, htod, h⟩ := Prog.returns_bind.mp h
  have htod := trans_of Hushed hid (uciTodStart_hushed _ _ _ htod)
  rcases Prog.returns_ite.mp h with ⟨-, h⟩ | ⟨-, h⟩
  · obtain ⟨-, rfl⟩ := Prog.returns_pure.mp h
    exact htod.steps
  simp only [Prog.returns_bind, Prog.returns_when, Prog.returns_pure] at h
  obtain ⟨u₃, s₃, habort, m, s₄, hcells, u₅, s₅, hclose, u₆, s₆, hzero, -, rfl⟩ := h
  have habort : Hushed s s₃ := by
    refine trans_of Hushed htod (sta_hushed ?_ _ _ _ habort)
    show uciCtrlAbort ≠ uciCtrlPushCmd
    decide
  obtain ⟨rfl, rfl⟩ := cells_spec hcells
  obtain ⟨hlog₆, hmem₆, -⟩ := store_spec hzero
  have hsocket₃ : s₃.mem.socket = s.mem.socket := by
    obtain ⟨-, -, -, hsocket⟩ := habort
    exact hsocket
  have hopen₃ : s₃.mem.uciSocketOpen = s.mem.uciSocketOpen := (congrArg Socket.isOpen hsocket₃ :)
  have hclosed : Steps none s s₅ ∧ s₅.mem.uciSocketOpen = 0 := by
    rcases hclose with ⟨-, c₇, s₇, hclose, -, rfl⟩ | ⟨hnot, rfl⟩
    · obtain ⟨hsteps, hzero⟩ := netUdpClose_steps hclose
      exact ⟨trans_of (Steps none) habort.steps hsteps, hzero⟩
    · refine ⟨habort.steps, ?_⟩
      rw [hopen₃] at hnot ⊢
      exact hopen.resolve_right hnot
  refine trans_of (Steps none) hclosed.1 ⟨[], by rw [hlog₆, List.append_nil], ?_⟩
  have hsocket : s'.mem.socket = ⟨0, 0⟩ := by
    rw [hmem₆]
    rfl
  rw [hsocket]
  exact .one (.forget hclosed.2)

/-! ## `net_udp_send` -/

theorem writeCommand_writeTo (m : UciMem) : WriteTo m.uciSocketId (writeCommand m) :=
  Or.inl rfl

theorem partCommand_writeTo (m : UciMem) : WriteTo m.uciSocketId (partCommand m) :=
  Or.inr rfl

/-- **`net_udp_send`**, in both builds: a connect when there is no socket, and then writes. -/
theorem netUdpSend_steps {chunked : Bool} {ptr : Nat} {c : Bool}
    (h : (netUdpSend D chunked ptr).Returns s c s') : Steps (some s.mem.netUdpDest) s s' := by
  obtain ⟨u₁, s₁, hstage, h⟩ := Prog.returns_bind.mp h
  obtain ⟨m, s₁', hcells, h⟩ := Prog.returns_bind.mp h
  obtain ⟨hlog₁, hmem₁, -⟩ := store_spec hstage
  obtain ⟨rfl, rfl⟩ := cells_spec hcells
  have hdest₁ : s₁.mem.netUdpDest = s.mem.netUdpDest := by rw [hmem₁]
  have hlen₁ : s₁.mem.uciChunkLen = s₁.mem.uciSendRem := by rw [hmem₁]
  refine trans_of (Steps _) (.of_eq hlog₁ (by rw [hmem₁]; rfl)) ?_
  rcases Prog.returns_ite.mp h with ⟨-, h⟩ | ⟨hpos, h⟩
  · obtain ⟨-, rfl⟩ := Prog.returns_pure.mp h
    exact refl_of (Steps _) _
  rcases Prog.returns_ite.mp h with ⟨-, h⟩ | ⟨hfits, h⟩
  · have herr : (setLastError uciErrSendTooLong >>= fun _ => pure true : Prog (State δ) Bool).Within
        Hushed := (setLastError_hushed _).bind fun _ => .pure _
    exact (herr _ _ _ h).steps
  have hmax : s₁.mem.uciSendRem < 65535 := by
    have : netUdpSendMax chunked ≤ 1472 := by
      unfold netUdpSendMax
      split <;> omega
    omega
  obtain ⟨c₂, s₂, hopen, h⟩ := Prog.returns_bind.mp h
  obtain ⟨conn, hconn, hexchange, hkept, hopened, hhas, hcore, hrefusal, hbit⟩ := openSocket_spec hopen
  rw [hdest₁] at hexchange hopened
  have hsocket₂ : Steps (some s.mem.netUdpDest) s₁ s₂ := by
    refine ⟨conn, hconn, ?_⟩
    by_cases hzero : s₁.mem.uciSocketOpen = 0
    · cases c₂ with
      | false =>
        obtain ⟨hpushes, -, hne, hreply⟩ := hopened hzero rfl
        have hone : s₂.mem.uciSocketOpen = 1 :=
          hbit.resolve_left fun heq => hhas.mp rfl (heq.trans hzero)
        have hsocket : s₂.mem.socket = ⟨1, s₂.mem.uciSocketId⟩ := by
          rw [UciMem.socket, hone]
        rw [hsocket]
        exact .one (.opened hzero rfl hexchange hpushes hne hreply)
      | true =>
        have hclosed : s₂.mem.uciSocketOpen = 0 := by
          by_contra hne
          cases hhas.mpr hne
        have hsocket : s₂.mem.socket = ⟨0, s₂.mem.uciSocketId⟩ := by
          rw [UciMem.socket, hclosed]
        rw [hsocket]
        exact .one (.refused hzero rfl hexchange (hrefusal rfl))
    · obtain ⟨-, rfl, hsame⟩ := hkept hzero
      rw [hsame]
      exact .refl _
  refine trans_of (Steps _) hsocket₂ ?_
  have hrem₂ : s₂.mem.uciSendRem = s₁.mem.uciSendRem := (congrArg UciMem.uciSendRem hcore :)
  have hlen₂ : s₂.mem.uciChunkLen = s₁.mem.uciChunkLen := (congrArg UciMem.uciChunkLen hcore :)
  rcases Prog.returns_ite.mp h with ⟨-, h⟩ | ⟨hc₂, h⟩
  · obtain ⟨-, rfl⟩ := Prog.returns_pure.mp h
    exact refl_of (Steps _) _
  rw [Bool.not_eq_true] at hc₂
  have hisOpen : s₂.mem.uciSocketOpen ≠ 0 := hhas.mp hc₂
  rcases Prog.returns_ite.mp h with ⟨-, h⟩ | ⟨-, h⟩
  · obtain ⟨u₃, s₃, hzero, h⟩ := Prog.returns_bind.mp h
    obtain ⟨hlog₃, hmem₃, -⟩ := store_spec hzero
    obtain ⟨segs, hsegs, hdone, hends⟩ := partLoop_spec (by rw [hmem₃])
      (by rw [hmem₃]; show 0 < s₂.mem.uciSendRem; omega)
      (by rw [hmem₃]; show s₂.mem.uciSendRem < 65535; omega) h
    have hsocket : s'.mem.socket = s₂.mem.socket := by
      have hdone' : s'.mem.socket = s₃.mem.socket := (congrArg UciMem.socket hdone :)
      rw [hdone', hmem₃]
      rfl
    refine ⟨segs.flatten, by rw [hsegs, hlog₃], ?_⟩
    rw [hsocket]
    refine .writes hisOpen fun es hes => ?_
    obtain ⟨i, hexchange⟩ := hends.exchange es hes
    have hid : s₂.mem.socket.id = (partAt s₃.mem i).uciSocketId := by
      rw [hmem₃]
      rfl
    rw [hid]
    exact ⟨_, hexchange, partCommand_writeTo _⟩
  · obtain ⟨es, hes, ⟨hexchange, -⟩, hwritten⟩ :=
      socketWrite_spec (by rw [hlen₂, hrem₂, hlen₁]) (by omega) h
    have hsocket : s'.mem.socket = s₂.mem.socket := (congrArg UciMem.socket hwritten :)
    refine ⟨es, hes, ?_⟩
    rw [hsocket]
    exact .one (.write hisOpen rfl hexchange (writeCommand_writeTo _))

end C64WireGuard.Uci
