import C64WireGuard.Uci.ChunkedSend

/-!
# Receiving from any device

`net_poll` pushes one `SOCKET_READ` at most, and whatever the device answers it writes no byte
outside `udp_recv_buf` and touches no cell but its own (`Kept`). It announces a datagram only when the
header named a length that fits and every byte of it came (`Delivered`). The receive loop carries one
invariant (`Filling`): the operand points behind the bytes taken, which with the bytes still missing
make up the length announced.
-/

namespace C64WireGuard.Uci

open Bytes

variable {δ : Type} {D : Device δ} {s s' : State δ}

/-- `SOCKET_READ` of at most `UCI_READ_CHUNK_MAX` bytes. -/
def readCommand (id : UInt8) : List UInt8 :=
  [uciTargetNetwork, uciCmdSocketRead, id, lo uciReadChunkMax, hi uciReadChunkMax]

-- 1472 bytes, the count low byte first.
example : readCommand 5 = [uciTargetNetwork, uciCmdSocketRead, 5, 0xc0, 0x05] := by decide +kernel

/-! ## What a receive keeps -/

/-- The cells that are not `net_poll`'s own. -/
def UciMem.others (m : UciMem) : UciMem :=
  { m.core with
    ram := fun _ => 0
    uciReadHdr := zero 2
    uciPollRem := 0
    uciShortReadState := 0
    udpRecvLen := 0
    udpRecvReady := 0
    udpRecvSrc := .start }

theorem others_of_core {m m' : UciMem} (h : m'.core = m.core) : m'.others = m.others := by
  unfold UciMem.others
  rw [h]

/-- The cells of others and the memory outside the receive buffer. -/
structure Kept (buf : Nat) (m m' : UciMem) : Prop where
  others : m'.others = m.others
  outside : ∀ a, (∀ i < uciReadChunkMax, a ≠ (buf + i) % 65536) → m'.ram a = m.ram a

theorem Kept.of_core {buf : Nat} {m m' : UciMem} (h : m'.core = m.core) : Kept buf m m' :=
  ⟨others_of_core h, fun _ _ => congrFun (congrArg UciMem.ram h :) _⟩

theorem Kept.trans {buf : Nat} {m m₁ m' : UciMem} (h₁ : Kept buf m m₁) (h₂ : Kept buf m₁ m') :
    Kept buf m m' :=
  ⟨h₂.others.trans h₁.others, fun a ha => (h₂.outside a ha).trans (h₁.outside a ha)⟩

/-- A datagram was taken whole: the header announced a length that fits, the bytes that follow it
are in the buffer, and the cell of the length says how many. -/
def Delivered (buf : Nat) (es : List Access) (m : UciMem) : Prop :=
  ∃ b₀ b₁ data rest, readsOf .uciRespData es = b₀ :: b₁ :: (data ++ rest) ∧
    data.length = b₀.toNat + 256 * b₁.toNat ∧ 1 ≤ data.length ∧ data.length ≤ uciReadChunkMax ∧
    m.udpRecvLen = data.length ∧ ramBytes m.ram buf data.length = data

/-- What a receive does, by its carry. -/
inductive Outcome (buf : Nat) (m : UciMem) (c : Bool) (es : List Access) (m' : UciMem) : Prop
  | nothing (ready : m'.udpRecvReady = m.udpRecvReady)
  | datagram (carry : c = false) (ready : m'.udpRecvReady = 1) (src : m'.udpRecvSrc = m.netUdpDest)
      (whole : Delivered buf es m')

/-! ## The receive loop -/

theorem ramBytes_succ (ram : Nat → UInt8) (a n : Nat) :
    ramBytes ram a (n + 1) = ramBytes ram a n ++ [ram ((a + n) % 65536)] := by
  simp [ramBytes, List.range_succ]

theorem ramBytes_congr {ram ram' : Nat → UInt8} {a n : Nat}
    (h : ∀ i < n, ram' ((a + i) % 65536) = ram ((a + i) % 65536)) :
    ramBytes ram' a n = ramBytes ram a n := by
  refine List.map_congr_left fun i hi => ?_
  exact h i (List.mem_range.mp hi)

/-- The byte written next is the next of the buffer, and none of the ones before it. -/
theorem ramBytes_writeRam {m : UciMem} {buf k : Nat} {b : UInt8} (hk : k < 65536) :
    ramBytes (writeRam ((buf + k) % 65536) b m).ram buf (k + 1) = ramBytes m.ram buf k ++ [b] := by
  rw [ramBytes_succ]
  refine congrArg₂ (· ++ ·) (ramBytes_congr fun i hi => if_neg ?_) ?_
  · omega
  · simp [writeRam]

/-- The cells while a datagram of `n` bytes comes in, `data` being the bytes taken so far. -/
structure Filling (buf n : Nat) (m m' : UciMem) (o : Operand) (data : List UInt8) : Prop where
  kept : Kept buf m m'
  y : o.y < 256
  addr : o.addr = (buf + data.length) % 65536
  rem : data.length + m'.uciPollRem = n
  stored : ramBytes m'.ram buf data.length = data
  len : m'.udpRecvLen = m.udpRecvLen
  ready : m'.udpRecvReady = m.udpRecvReady

/-- The cells without those that a block boundary may write. -/
def UciMem.blockCore (m : UciMem) : UciMem := { m.core with uciShortReadState := 0 }

theorem Filling.of_blockCore {buf n : Nat} {m m₁ m' : UciMem} {o : Operand} {data : List UInt8}
    (h : Filling buf n m m₁ o data) (hcore : m'.blockCore = m₁.blockCore) :
    Filling buf n m m' o data := by
  have hram : m'.ram = m₁.ram := (congrArg UciMem.ram hcore :)
  have hrem : m'.uciPollRem = m₁.uciPollRem := (congrArg UciMem.uciPollRem hcore :)
  have hlen : m'.udpRecvLen = m₁.udpRecvLen := (congrArg UciMem.udpRecvLen hcore :)
  have hready : m'.udpRecvReady = m₁.udpRecvReady := (congrArg UciMem.udpRecvReady hcore :)
  exact
    { kept := h.kept.trans ⟨(congrArg UciMem.others hcore :), fun _ _ => congrFun hram _⟩
      y := h.y
      addr := h.addr
      rem := by rw [hrem]; exact h.rem
      stored := by rw [hram]; exact h.stored
      len := hlen.trans h.len
      ready := hready.trans h.ready }

/-- One byte more. -/
theorem Filling.take {buf n : Nat} {m m₁ m' : UciMem} {o : Operand} {data : List UInt8} {b : UInt8}
    (h : Filling buf n m m₁ o data) (hn : n ≤ uciReadChunkMax) (hrem : m₁.uciPollRem ≠ 0)
    (hm' : m' = { writeRam o.addr b m₁ with uciPollRem := m₁.uciPollRem - 1 }) :
    Filling buf n m m' o.next (data ++ [b]) := by
  subst hm'
  obtain ⟨hnext, hynext⟩ := Operand.addr_next h.y
  have hlt : data.length < n := by
    have := h.rem
    omega
  unfold uciReadChunkMax at hn
  refine ⟨h.kept.trans ⟨rfl, fun a ha => if_neg ?_⟩, hynext, ?_, ?_, ?_, h.len, h.ready⟩
  · rw [h.addr]
    exact ha data.length (by unfold uciReadChunkMax; omega)
  · rw [hnext, h.addr, List.length_append, List.length_singleton]
    omega
  · have hdone := h.rem
    rw [List.length_append, List.length_singleton]
    show data.length + 1 + (m₁.uciPollRem - 1) = n
    omega
  · have hstored : ramBytes (writeRam ((buf + data.length) % 65536) b m₁).ram buf (data.length + 1) =
        ramBytes m₁.ram buf data.length ++ [b] := ramBytes_writeRam (by omega)
    rw [h.stored, ← h.addr] at hstored
    rw [List.length_append, List.length_singleton]
    exact hstored

/-- A block boundary moves no data, and goes on with the operand as it is. -/
theorem blockEnd_spec {o : Operand} {r : Operand ⊕ Bool} (h : (blockEnd D o).Returns s r s') :
    (∀ o', r = .inl o' → o' = o) ∧ (r = .inr false → s.mem.uciPollRem = 0) ∧
    Since s (fun es m => Quiet es ∧ readsOf .uciRespData es = [] ∧
      m.blockCore = s.mem.blockCore) s' := by
  obtain ⟨m, s₁, hcells, h⟩ := Prog.returns_bind.mp h
  obtain ⟨rfl, rfl⟩ := cells_spec hcells
  rcases Prog.returns_ite.mp h with ⟨hrem, h⟩ | ⟨-, h⟩
  · obtain ⟨rfl, rfl⟩ := Prog.returns_pure.mp h
    exact ⟨by simp, fun _ => hrem, [], (List.append_nil _).symm, quiet_nil, rfl, rfl⟩
  obtain ⟨r', s₂, hsettle, h⟩ := Prog.returns_bind.mp h
  obtain ⟨es, hes, hquiet, hresp, -, -, hcore⟩ := settleLoop_spec _ hsettle
  have hblock : s₂.mem.blockCore = s.mem.blockCore := by
    unfold UciMem.blockCore
    rw [hcore]
  have hkeep : Since s (fun es m => Quiet es ∧ readsOf .uciRespData es = [] ∧
      m.blockCore = s.mem.blockCore) s₂ := ⟨es, hes, hquiet, hresp, hblock⟩
  cases r' with
  | none =>
    obtain ⟨rfl, rfl⟩ := Prog.returns_pure.mp h
    exact ⟨by simp, by simp, hkeep⟩
  | some status =>
    rcases Prog.returns_ite.mp h with ⟨-, h⟩ | ⟨-, h⟩
    · obtain ⟨rfl, rfl⟩ := Prog.returns_pure.mp h
      exact ⟨by simp, by simp, hkeep⟩
    rcases Prog.returns_ite.mp h with ⟨-, h⟩ | ⟨-, h⟩
    · obtain ⟨u, s₃, hack, h⟩ := Prog.returns_bind.mp h
      obtain ⟨rfl, rfl⟩ := Prog.returns_pure.mp h
      obtain ⟨hlog₃, hmem₃⟩ := uciAck_spec hack
      refine ⟨by simp, by simp, hkeep.add hlog₃ fun fs hfs => ⟨?_, by simp [hfs.2.1], ?_⟩⟩
      · exact quiet_append.mpr ⟨hfs.1, Calm.quiet (by simp)⟩
      · rw [hmem₃]
        exact hfs.2.2
    rcases Prog.returns_ite.mp h with ⟨-, h⟩ | ⟨-, h⟩
    · obtain ⟨c, s₃, hwait, h⟩ := Prog.returns_bind.mp h
      obtain ⟨fs, hfs, hwaited⟩ := statusWait_spec hwait
      have hkeep₃ : Since s (fun es m => Quiet es ∧ readsOf .uciRespData es = [] ∧
          m.blockCore = s.mem.blockCore) s₃ := by
        refine hkeep.add hfs fun es hes => ⟨?_, by simp [hes.2.1, hwaited.readsOf_data.1], ?_⟩
        · exact quiet_append.mpr ⟨hes.1, hwaited.quiet⟩
        · rw [← hes.2.2]
          unfold UciMem.blockCore
          rw [hwaited.core]
      rcases Prog.returns_ite.mp h with ⟨-, h⟩ | ⟨-, h⟩
      · obtain ⟨rfl, rfl⟩ := Prog.returns_pure.mp h
        exact ⟨by simp, by simp, hkeep₃⟩
      · obtain ⟨rfl, rfl⟩ := Prog.returns_pure.mp h
        exact ⟨by simp, by simp, hkeep₃⟩
    · obtain ⟨u, s₃, hput, h⟩ := Prog.returns_bind.mp h
      obtain ⟨rfl, rfl⟩ := Prog.returns_pure.mp h
      obtain ⟨hlog₃, hmem₃, -⟩ := store_spec hput
      refine ⟨by simp, by simp, es, hlog₃.trans hes, hquiet, hresp, ?_⟩
      rw [hmem₃, ← hblock]
      rfl

/-- One pass: a byte is taken or none, and the loop is left with success when none is missing. -/
theorem byteLoop_spec {o : Operand} {r : Operand ⊕ Bool} (h : (byteLoop D o).Returns s r s') :
    (∃ es, s'.log = s.log ++ es ∧ Quiet es ∧ readsOf .uciRespData es = [] ∧
      s'.mem.blockCore = s.mem.blockCore ∧ (∀ o', r = .inl o' → o' = o) ∧
      (r = .inr false → s.mem.uciPollRem = 0)) ∨
    ∃ v b, s.mem.uciPollRem ≠ 0 ∧ r = .inl o.next ∧
      s'.log = s.log ++ [.read .uciStatus v, .read .uciRespData b] ∧
      s'.mem = { writeRam o.addr b s.mem with uciPollRem := s.mem.uciPollRem - 1 } := by
  obtain ⟨m, s₁, hcells, h⟩ := Prog.returns_bind.mp h
  obtain ⟨rfl, rfl⟩ := cells_spec hcells
  rcases Prog.returns_ite.mp h with ⟨hrem, h⟩ | ⟨hrem, h⟩
  · obtain ⟨rfl, rfl⟩ := Prog.returns_pure.mp h
    exact Or.inl ⟨[], (List.append_nil _).symm, quiet_nil, rfl, rfl, by simp, fun _ => hrem⟩
  obtain ⟨v, s₂, hstatus, h⟩ := Prog.returns_bind.mp h
  obtain ⟨hlog₂, hmem₂⟩ := lda_spec hstatus
  rcases Prog.returns_ite.mp h with ⟨-, h⟩ | ⟨-, h⟩
  · obtain ⟨hnext, hdone, es, hes, hquiet, hresp, hcore⟩ := blockEnd_spec h
    refine Or.inl ⟨.read .uciStatus v :: es, ?_, by simp [hquiet], by simp [hresp], ?_, hnext, ?_⟩
    · rw [hes, hlog₂, List.append_assoc]
      rfl
    · rw [hcore, hmem₂]
    · rwa [hmem₂] at hdone
  · simp only [Prog.returns_bind, Prog.returns_pure] at h
    obtain ⟨b, s₃, hdata, u₄, s₄, hput, u₅, s₅, hcount, rfl, rfl⟩ := h
    obtain ⟨hlog₃, hmem₃⟩ := lda_spec hdata
    obtain ⟨hlog₄, hmem₄, -⟩ := store_spec hput
    obtain ⟨hlog₅, hmem₅, -⟩ := store_spec hcount
    refine Or.inr ⟨v, b, hrem, rfl, ?_, ?_⟩
    · rw [hlog₅, hlog₄, hlog₃, hlog₂, List.append_assoc]
      rfl
    · rw [hmem₅, hmem₄, hmem₃, hmem₂]
      rfl

/-- **The receive loop** stores what it reads, in order, and comes through when all of it is there. -/
theorem loop_byteLoop_spec {buf : Nat} {c : Bool} (hrem : s.mem.uciPollRem ≤ uciReadChunkMax)
    (h : (Prog.loop (byteLoop D) ⟨buf, 0⟩).Returns s c s') :
    Since s (fun es m => Quiet es ∧ ∃ o,
      Filling buf s.mem.uciPollRem s.mem m o (readsOf .uciRespData es) ∧
      (c = false → (readsOf .uciRespData es).length = s.mem.uciPollRem)) s' := by
  refine h.loop_rule
    (I := fun o => Since s fun es m => Quiet es ∧
      Filling buf s.mem.uciPollRem s.mem m o (readsOf .uciRespData es))
    (Q := fun c => Since s fun es m => Quiet es ∧ ∃ o,
      Filling buf s.mem.uciPollRem s.mem m o (readsOf .uciRespData es) ∧
      (c = false → (readsOf .uciRespData es).length = s.mem.uciPollRem)) ?_ ?_
    ⟨[], (List.append_nil _).symm, quiet_nil, .of_core rfl, by simp, rfl, Nat.zero_add _, rfl, rfl,
      rfl⟩
  · rintro o t o' t' ⟨es, hes, hquiet, hfill⟩ hround
    rcases byteLoop_spec hround with ⟨fs, hfs, hquiet', hresp, hcore, hnext, -⟩ |
      ⟨v, b, hne, hnext, hlog, hmem⟩
    · obtain rfl := hnext o' rfl
      refine ⟨es ++ fs, by rw [hfs, hes, List.append_assoc], by simp [hquiet, hquiet'], ?_⟩
      rw [readsOf_append, hresp, List.append_nil]
      exact hfill.of_blockCore hcore
    · cases hnext
      refine ⟨_, by rw [hlog, hes, List.append_assoc], by simp [hquiet], ?_⟩
      simpa using hfill.take hrem hne hmem
  · rintro o t c t' ⟨es, hes, hquiet, hfill⟩ hround
    rcases byteLoop_spec hround with ⟨fs, hfs, hquiet', hresp, hcore, -, hdone⟩ |
      ⟨v, b, -, hcontra, -⟩
    · refine ⟨es ++ fs, by rw [hfs, hes, List.append_assoc], by simp [hquiet, hquiet'], o, ?_, ?_⟩
      · rw [readsOf_append, hresp, List.append_nil]
        exact hfill.of_blockCore hcore
      · rintro rfl
        have hlen := hfill.rem
        rw [hdone rfl] at hlen
        rw [readsOf_append, hresp, List.append_nil]
        exact hlen
    · cases hcontra

/-! ## The header and what follows it -/

/-- The two bytes of the header are the first two read. -/
theorem hdrLoop_spec {c : Bool} (h : (hdrLoop D 2 0).Returns s c s') :
    Since s (fun es m => Quiet es ∧ m = { s.mem with uciReadHdr := m.uciReadHdr } ∧
      (c = true → readsOf .uciRespData es = [byte m.uciReadHdr 0, byte m.uciReadHdr 1])) s' := by
  simp only [hdrLoop, Prog.returns_bind, Prog.returns_ite, Prog.returns_pure] at h
  obtain ⟨v₁, s₁, hstatus₁, h⟩ := h
  obtain ⟨hlog₁, hmem₁⟩ := lda_spec hstatus₁
  rcases h with ⟨-, rfl, rfl⟩ | ⟨-, b₂, s₂, hdata₂, u₃, s₃, hput₃, v₄, s₄, hstatus₄, h⟩
  · exact ⟨_, hlog₁, by simp, by rw [hmem₁], by simp⟩
  obtain ⟨hlog₂, hmem₂⟩ := lda_spec hdata₂
  obtain ⟨hlog₃, hmem₃, -⟩ := store_spec hput₃
  obtain ⟨hlog₄, hmem₄⟩ := lda_spec hstatus₄
  rcases h with ⟨-, rfl, rfl⟩ | ⟨-, b₅, s₅, hdata₅, u₆, s₆, hput₆, rfl, rfl⟩
  · refine ⟨[.read .uciStatus v₁, .read .uciRespData b₂, .read .uciStatus v₄], ?_, by simp, ?_,
      by simp⟩
    · rw [hlog₄, hlog₃, hlog₂, hlog₁]
      simp
    · rw [hmem₄, hmem₃, hmem₂, hmem₁]
  · obtain ⟨hlog₅, hmem₅⟩ := lda_spec hdata₅
    obtain ⟨hlog₆, hmem₆, -⟩ := store_spec hput₆
    refine ⟨[.read .uciStatus v₁, .read .uciRespData b₂, .read .uciStatus v₄,
      .read .uciRespData b₅], ?_, by simp, ?_, fun _ => ?_⟩
    · rw [hlog₆, hlog₅, hlog₄, hlog₃, hlog₂, hlog₁]
      simp
    · rw [hmem₆, hmem₅, hmem₄, hmem₃, hmem₂, hmem₁]
    · have hhdr : s'.mem.uciReadHdr = put (put s₂.mem.uciReadHdr 0 b₂) 1 b₅ := by
        rw [hmem₆, hmem₅, hmem₄, hmem₃]
      rw [hhdr]
      simp

/-- The bytes after the header were taken whole. -/
def Taken (buf n : Nat) (es : List Access) (m : UciMem) : Prop :=
  ∃ data rest, readsOf .uciRespData es = data ++ rest ∧ data.length = n ∧ 1 ≤ n ∧
    n ≤ uciReadChunkMax ∧ m.udpRecvLen = n ∧ ramBytes m.ram buf n = data

theorem pollFail_spec {c : Bool} (h : (pollFail D).Returns s c s') :
    c = true ∧ Since s (fun es m => Quiet es ∧ m.core = s.mem.core) s' := by
  obtain ⟨u, s₁, hdrain, h⟩ := Prog.returns_bind.mp h
  obtain ⟨rfl, rfl⟩ := Prog.returns_pure.mp h
  exact ⟨rfl, drainAckAlways_spec hdrain⟩

theorem ready_of_core {m m' : UciMem} (h : m'.core = m.core) : m'.udpRecvReady = m.udpRecvReady :=
  (congrArg UciMem.udpRecvReady h :)

/-- From the header on. -/
theorem hdrDone_spec {buf : Nat} {c : Bool} (h : (hdrDone D buf).Returns s c s') :
    Since s (fun es m => Quiet es ∧ Kept buf s.mem m ∧ (m.udpRecvReady = s.mem.udpRecvReady ∨
      (c = false ∧ m.udpRecvReady = 1 ∧ m.udpRecvSrc = s.mem.netUdpDest ∧
        Taken buf (hdrLen s.mem.uciReadHdr) es m))) s' := by
  simp only [hdrDone, Prog.returns_bind, Prog.returns_ite, Prog.returns_pure] at h
  obtain ⟨m, s₀, hcells, h⟩ := h
  obtain ⟨rfl, rfl⟩ := cells_spec hcells
  -- A reply that announces no datagram is drained.
  have hdrained : ∀ {t : State δ} {u : Unit}, (drainAckAlways D).Returns s u t →
      Since s (fun es m => Quiet es ∧ Kept buf s.mem m ∧ m.udpRecvReady = s.mem.udpRecvReady) t := by
    intro t u hdrain
    obtain ⟨es, hes, hquiet, hcore⟩ := drainAckAlways_spec hdrain
    exact ⟨es, hes, hquiet, .of_core hcore, ready_of_core hcore⟩
  rcases h with ⟨-, u₁, s₁, hdrain, rfl, rfl⟩ | ⟨-, ⟨-, u₁, s₁, hdrain, u₂, s₂, herr, rfl, rfl⟩ |
    ⟨hle, u₁, s₁, hput, m, s₂, hcells, h⟩⟩
  · obtain ⟨es, hes, hquiet, hkept, hready⟩ := hdrained hdrain
    exact ⟨es, hes, hquiet, hkept, Or.inl hready⟩
  · obtain ⟨es, hes, hquiet, hkept, hready⟩ := hdrained hdrain
    obtain ⟨hlog₂, hmem₂⟩ := setLastError_spec herr
    refine ⟨es, hlog₂.trans hes, hquiet, hkept.trans (.of_core ?_), Or.inl ?_⟩
    · rw [hmem₂]
      rfl
    · rw [hmem₂]
      exact hready
  obtain ⟨hlog₁, hmem₁, -⟩ := store_spec hput
  obtain ⟨rfl, rfl⟩ := cells_spec hcells
  have hkept₁ : Kept buf s.mem s₁.mem := by
    rw [hmem₁]
    exact ⟨rfl, fun _ _ => rfl⟩
  have hrem : s₁.mem.uciPollRem = hdrLen s.mem.uciReadHdr := by rw [hmem₁]
  have hlen : s₁.mem.udpRecvLen = hdrLen s.mem.uciReadHdr := by rw [hmem₁]
  have hready₁ : s₁.mem.udpRecvReady = s.mem.udpRecvReady := by rw [hmem₁]
  rcases h with ⟨-, u₂, s₂, hdrain, rfl, rfl⟩ | ⟨hne, c₂, s₂, hloop, h⟩
  · obtain ⟨es, hes, hquiet, hcore⟩ := drainAckAlways_spec hdrain
    exact ⟨es, by rw [hes, hlog₁], hquiet, hkept₁.trans (.of_core hcore),
      Or.inl ((ready_of_core hcore).trans hready₁)⟩
  obtain ⟨es, hes, hquiet, o, hfill, hall⟩ := loop_byteLoop_spec (by omega) hloop
  rcases h with ⟨-, h⟩ | ⟨hc₂, h⟩
  · obtain ⟨rfl, fs, hfs, hquiet', hcore⟩ := pollFail_spec h
    refine ⟨es ++ fs, by rw [hfs, hes, hlog₁, List.append_assoc], by simp [hquiet, hquiet'],
      (hkept₁.trans hfill.kept).trans (.of_core hcore), Or.inl ?_⟩
    rw [ready_of_core hcore, hfill.ready, hready₁]
  · rw [Bool.not_eq_true] at hc₂
    subst hc₂
    simp only [doneData, Prog.returns_bind, Prog.returns_pure] at h
    obtain ⟨u₃, s₃, hdrain, u₄, s₄, hput₄, rfl, rfl⟩ := h
    obtain ⟨fs, hfs, hquiet', hcore⟩ := drainAckAlways_spec hdrain
    obtain ⟨hlog₄, hmem₄, -⟩ := store_spec hput₄
    have hdata : (readsOf .uciRespData es).length = hdrLen s.mem.uciReadHdr :=
      (hall rfl).trans hrem
    have hkept₃ : Kept buf s.mem s₃.mem := (hkept₁.trans hfill.kept).trans (.of_core hcore)
    have hkept₄ : Kept buf s₃.mem s'.mem := by
      rw [hmem₄]
      exact ⟨rfl, fun _ _ => rfl⟩
    refine ⟨es ++ fs, by rw [hlog₄, hfs, hes, hlog₁, List.append_assoc], by simp [hquiet, hquiet'],
      hkept₃.trans hkept₄, Or.inr ⟨rfl, ?_, ?_, readsOf .uciRespData es, readsOf .uciRespData fs,
        readsOf_append _ _ _, hdata, by omega, by omega, ?_, ?_⟩⟩
    · rw [hmem₄]
    · have hdest : s₃.mem.netUdpDest = s.mem.netUdpDest :=
        (congrArg UciMem.netUdpDest hkept₃.others :)
      rw [hmem₄]
      exact hdest
    · have hlen₃ : s₃.mem.udpRecvLen = s₂.mem.udpRecvLen := (congrArg UciMem.udpRecvLen hcore :)
      rw [hmem₄]
      exact hlen₃.trans (hfill.len.trans hlen)
    · have hram₃ : s₃.mem.ram = s₂.mem.ram := (congrArg UciMem.ram hcore :)
      have hstored := hfill.stored
      rw [hdata, ← hram₃] at hstored
      rw [hmem₄]
      exact hstored

/-! ## `net_poll` -/

/-- What a call of `net_poll` does to the log and the cells. -/
structure Received (buf : Nat) (m : UciMem) (c : Bool) (es : List Access) (m' : UciMem) : Prop where
  exchange : Exchange (readCommand m.uciSocketId) es
  kept : Kept buf m m'
  outcome : Outcome buf m c es m'
  idle : m.uciSocketOpen = 0 ∨ m.udpRecvReady ≠ 0 → c = false ∧ es = [] ∧ m' = m

/-- **`net_poll`**, whatever the device does. -/
theorem netPoll_spec {buf : Nat} {c : Bool} (h : (netPoll D buf).Returns s c s') :
    Since s (Received buf s.mem c) s' := by
  simp only [netPoll, Prog.returns_bind, Prog.returns_ite, Prog.returns_pure] at h
  obtain ⟨m, s₀, hcells, h⟩ := h
  obtain ⟨rfl, rfl⟩ := cells_spec hcells
  rcases h with ⟨-, rfl, rfl⟩ | ⟨hopen, m, s₀, hcells, h⟩
  · exact ⟨[], (List.append_nil _).symm, .silent still_nil, .of_core rfl, .nothing rfl,
      fun _ => ⟨rfl, rfl, rfl⟩⟩
  obtain ⟨rfl, rfl⟩ := cells_spec hcells
  rcases h with ⟨-, rfl, rfl⟩ | ⟨hready, c₁, s₁, hidle, h⟩
  · exact ⟨[], (List.append_nil _).symm, .silent still_nil, .of_core rfl, .nothing rfl,
      fun _ => ⟨rfl, rfl, rfl⟩⟩
  have hactive : ¬ (s.mem.uciSocketOpen = 0 ∨ s.mem.udpRecvReady ≠ 0) := not_or.mpr ⟨hopen, hready⟩
  obtain ⟨es₁, hes₁, hidled⟩ := uciWaitIdle_spec hidle
  rcases h with ⟨-, rfl, rfl⟩ | ⟨-, h⟩
  · exact ⟨es₁, hes₁, .silent hidled.still, .of_core hidled.core, .nothing (ready_of_core hidled.core),
      fun hno => absurd hno hactive⟩
  obtain ⟨u₂, s₂, hbegin, u₃, s₃, hput, m, s₄, hcells, u₅, s₅, hid, u₆, s₆, hlo, u₇, s₇, hhi, c₈, s₈,
    hpush, h⟩ := h
  obtain ⟨hlog₂, hmem₂⟩ := sta_spec hbegin
  obtain ⟨hlog₃, hmem₃⟩ := sta_spec hput
  obtain ⟨rfl, rfl⟩ := cells_spec hcells
  obtain ⟨hlog₅, hmem₅⟩ := sta_spec hid
  obtain ⟨hlog₆, hmem₆⟩ := sta_spec hlo
  obtain ⟨hlog₇, hmem₇⟩ := sta_spec hhi
  obtain ⟨es₈, hes₈, hpushed⟩ := uciPushWait_spec hpush
  have hmem : s₇.mem = s₁.mem := by rw [hmem₇, hmem₆, hmem₅, hmem₃, hmem₂]
  have hid' : s₃.mem.uciSocketId = s.mem.uciSocketId := by
    rw [hmem₃, hmem₂]
    exact (congrArg UciMem.uciSocketId hidled.core :)
  have hlog : s₈.log = s.log ++ (es₁ ++ commandWrites (readCommand s.mem.uciSocketId) ++
      .write .uciControl uciCtrlPushCmd :: es₈) := by
    rw [hes₈, hlog₇, hlog₆, hlog₅, hlog₃, hlog₂, hes₁, hid']
    simp [readCommand, commandWrites]
  have hcore : s₈.mem.core = s.mem.core := by rw [hpushed.core, hmem, hidled.core]
  -- What a stretch after the push makes of the whole call.
  have hrest : ∀ {t : State δ} (fs : List Access), t.log = s₈.log ++ fs → Quiet fs →
      Kept buf s₈.mem t.mem →
      (t.mem.udpRecvReady = s₈.mem.udpRecvReady ∨
        (c = false ∧ t.mem.udpRecvReady = 1 ∧ t.mem.udpRecvSrc = s₈.mem.netUdpDest ∧
          ∃ b₀ b₁ data rest, readsOf .uciRespData fs = b₀ :: b₁ :: (data ++ rest) ∧
            data.length = b₀.toNat + 256 * b₁.toNat ∧ 1 ≤ data.length ∧
            data.length ≤ uciReadChunkMax ∧ t.mem.udpRecvLen = data.length ∧
            ramBytes t.mem.ram buf data.length = data)) →
      Since s (Received buf s.mem c) t := by
    intro t fs hlog' hfs hkept houtcome
    have hafter : Quiet (es₈ ++ fs) := by simp [hpushed.quiet, hfs]
    refine ⟨_, ?_, .command hidled.still hafter, (Kept.of_core hcore).trans hkept, ?_,
      fun hno => absurd hno hactive⟩
    · rw [hlog', hlog]
      simp only [List.append_assoc, List.cons_append]
    · rcases houtcome with hnone | ⟨hc, hone, hsrc, b₀, b₁, data, rest, hreads, hwhole⟩
      · exact .nothing (hnone.trans (ready_of_core hcore))
      · refine .datagram hc hone ?_ ⟨b₀, b₁, data, rest, ?_, hwhole⟩
        · exact hsrc.trans (congrArg UciMem.netUdpDest hcore :)
        · simp [hidled.readsOf_data, hpushed.readsOf_data, hreads]
  rcases h with ⟨-, rfl, rfl⟩ | ⟨-, c₉, s₉, hcheck, h⟩
  · exact hrest [] (List.append_nil _).symm quiet_nil (.of_core rfl) (Or.inl rfl)
  obtain ⟨v, -, hmem₉, hlog₉⟩ := uciCheckErr_spec hcheck
  have hclr : Quiet (if c₉ then [Access.write .uciControl uciCtrlClrErr] else []) := by
    split
    · exact Calm.quiet (by simp)
    · exact quiet_nil
  have hread : readsOf .uciRespData (if c₉ then [Access.write .uciControl uciCtrlClrErr] else []) =
      [] := by
    split <;> rfl
  generalize (if c₉ then [Access.write .uciControl uciCtrlClrErr] else []) = clr at hlog₉ hclr hread
  have hfail : ∀ {t t' : State δ} {c' : Bool} (fs : List Access), t.log = s₈.log ++ fs → Quiet fs →
      t.mem.core = s₈.mem.core → (pollFail D).Returns t c' t' →
      ∃ fs', t'.log = s₈.log ++ fs' ∧ Quiet fs' ∧ t'.mem.core = s₈.mem.core := by
    intro t t' c' fs hlog' hfs hcore' hfail
    obtain ⟨-, gs, hgs, hquiet, hcore''⟩ := pollFail_spec hfail
    exact ⟨fs ++ gs, by rw [hgs, hlog', List.append_assoc], by simp [hfs, hquiet],
      hcore''.trans hcore'⟩
  rcases h with ⟨-, u₁₀, s₁₀, herr, h⟩ | ⟨-, c₁₀, s₁₀, hstaged, h⟩
  · obtain ⟨hlog₁₀, hmem₁₀⟩ := setLastError_spec herr
    obtain ⟨fs, hfs, hquiet, hcore'⟩ := hfail (.read .uciStatus v :: clr) (hlog₁₀.trans hlog₉)
      (by simp [hclr]) (by rw [hmem₁₀, hmem₉]; rfl) h
    exact hrest fs hfs hquiet (.of_core hcore') (Or.inl (ready_of_core hcore'))
  obtain ⟨es₁₀, hes₁₀, hwaited⟩ := statusWait_spec hstaged
  have hlog₁₀ : s₁₀.log = s₈.log ++ .read .uciStatus v :: (clr ++ es₁₀) := by
    rw [hes₁₀, hlog₉, List.append_assoc]
    rfl
  have hcore₁₀ : s₁₀.mem.core = s₈.mem.core := by rw [hwaited.core, hmem₉]
  rcases h with ⟨-, h⟩ | ⟨-, c₁₁, s₁₁, hhdr, h⟩
  · obtain ⟨fs, hfs, hquiet, hcore'⟩ := hfail _ hlog₁₀ (by simp [hclr, hwaited.quiet]) hcore₁₀ h
    exact hrest fs hfs hquiet (.of_core hcore') (Or.inl (ready_of_core hcore'))
  obtain ⟨es₁₁, hes₁₁, hquiet₁₁, hm₁₁, hbytes⟩ := hdrLoop_spec hhdr
  have hlog₁₁ : s₁₁.log = s₈.log ++ .read .uciStatus v :: (clr ++ es₁₀ ++ es₁₁) := by
    rw [hes₁₁, hlog₁₀, List.append_assoc, List.cons_append]
  have hkept₁₁ : Kept buf s₈.mem s₁₁.mem := by
    refine (Kept.of_core hcore₁₀).trans ?_
    rw [hm₁₁]
    exact ⟨rfl, fun _ _ => rfl⟩
  have hready₁₁ : s₁₁.mem.udpRecvReady = s₈.mem.udpRecvReady := by
    have hready₁₀ : s₁₀.mem.udpRecvReady = s₈.mem.udpRecvReady := ready_of_core hcore₁₀
    rw [hm₁₁]
    exact hready₁₀
  rcases h with ⟨rfl, h⟩ | ⟨-, u₁₂, s₁₂, hdrain, rfl, rfl⟩
  · obtain ⟨fs, hfs, hquiet, hkept, houtcome⟩ := hdrDone_spec h
    refine hrest (.read .uciStatus v :: (clr ++ es₁₀ ++ es₁₁) ++ fs)
      (by rw [hfs, hlog₁₁, List.append_assoc]) (by simp [hclr, hwaited.quiet, hquiet₁₁, hquiet])
      (hkept₁₁.trans hkept) ?_
    rcases houtcome with hnone | ⟨hc, hone, hsrc, data, rest, hreads, hlen, hpos, hmax, hwhole, hstored⟩
    · exact Or.inl (hnone.trans hready₁₁)
    · rw [← hlen] at hpos hmax hwhole hstored
      refine Or.inr ⟨hc, hone, ?_, _, _, data, rest, ?_, hlen, hpos, hmax, hwhole, hstored⟩
      · exact hsrc.trans (congrArg UciMem.netUdpDest hkept₁₁.others :)
      · simp [hread, hwaited.readsOf_data, hbytes rfl, hreads]
  · obtain ⟨es₁₂, hes₁₂, hquiet₁₂, hcore₁₂⟩ := drainAckAlways_spec hdrain
    refine hrest (.read .uciStatus v :: (clr ++ es₁₀ ++ es₁₁) ++ es₁₂)
      (by rw [hes₁₂, hlog₁₁, List.append_assoc])
      (by simp [hclr, hwaited.quiet, hquiet₁₁, hquiet₁₂]) (hkept₁₁.trans (.of_core hcore₁₂)) ?_
    exact Or.inl ((ready_of_core hcore₁₂).trans hready₁₁)

/-- **A receive is safe**: it stores inside the receive buffer only, announces a datagram only when
the header named a length that fits and all of it is in the buffer, and leaves the announcement alone
when it fails; with a datagram still waiting or no socket open it does nothing. -/
theorem netPoll_safe {buf : Nat} {c : Bool} (h : (netPoll D buf).Returns s c s') :
    ∃ es, s'.log = s.log ++ es ∧ s'.mem.others = s.mem.others ∧
      (∀ a, (∀ i < uciReadChunkMax, a ≠ (buf + i) % 65536) → s'.mem.ram a = s.mem.ram a) ∧
      (s.mem.udpRecvReady = 0 → s'.mem.udpRecvReady ≠ 0 →
        s'.mem.udpRecvReady = 1 ∧ Delivered buf es s'.mem) ∧
      (c = true ∨ s.mem.udpRecvReady ≠ 0 ∨ s.mem.uciSocketOpen = 0 →
        s'.mem.udpRecvReady = s.mem.udpRecvReady) ∧
      (s.mem.udpRecvReady ≠ 0 ∨ s.mem.uciSocketOpen = 0 → s'.mem = s.mem) := by
  obtain ⟨es, hes, -, hkept, houtcome, hidle⟩ := netPoll_spec h
  have hidle' : s.mem.udpRecvReady ≠ 0 ∨ s.mem.uciSocketOpen = 0 → s'.mem = s.mem := fun hno =>
    (hidle hno.symm).2.2
  refine ⟨es, hes, hkept.others, hkept.outside, fun hzero hset => ?_, ?_, hidle'⟩
  · cases houtcome with
    | nothing hready => exact absurd (hready.trans hzero) hset
    | datagram _ hone _ hwhole => exact ⟨hone, hwhole⟩
  · rintro (hc | hno)
    · cases houtcome with
      | nothing hready => exact hready
      | datagram hc' => cases hc.symm.trans hc'
    · rw [hidle' hno]

/-- A socket, and a device that holds out three bytes behind a header. -/
def sampleRead : State (List UInt8) where
  mem := { UciMem.start with uciSocketOpen := 1, uciSocketId := 5 }
  dev := [0, 0, 0, 0, 0, 0, 0, 0, 0, 0, 0xa0, 0xa0, 3, 0xa0, 0, 0xa0, 7, 0xa0, 8, 0xa0, 9,
    0, 0, 0x20, 0, 0, 0x20]
  log := []

theorem sampleRead_returns : ((netPoll scriptDevice 0xfffe).run 5 sampleRead).isSome := by
  decide +kernel

theorem netPoll_safe_sample :
    let s' := (((netPoll scriptDevice 0xfffe).run 5 sampleRead).get sampleRead_returns).2
    (∃ es, s'.log = es ∧ Delivered 0xfffe es s'.mem) ∧ s'.mem.ram 0xfffd = 0 ∧
      ramBytes s'.mem.ram 0xfffe 3 = [7, 8, 9] := by
  intro s'
  obtain ⟨es, hes, -, houtside, hdelivered, -⟩ := netPoll_safe (Prog.returns_get sampleRead_returns)
  have hready : s'.mem.udpRecvReady ≠ 0 := by decide +kernel
  refine ⟨⟨es, hes, (hdelivered rfl hready).2⟩, ?_, by decide +kernel⟩
  refine houtside 0xfffd fun i hi => ?_
  unfold uciReadChunkMax at hi
  omega

end C64WireGuard.Uci
