import C64WireGuard.Uci.Termination

/-!
# Sending in parts: the whole datagram

**Theorem (`netUdpSend_chunked`).** With chunked writes, `net_udp_send` pushes a datagram as parts
that carry the same handle and the same total and lie behind one another, at most 888 bytes each.
Success means that all of it was pushed and every answer was in order, and a datagram whose answers
are all in order is a success when no wait gives up. The first part that fails is the last one.
-/

namespace C64WireGuard.Uci

open Bytes

variable {δ : Type} {D : Device δ} {s s' : State δ}

/-! ## A datagram in parts -/

/-- The commands that carry `bodies`, the first at offset `off` of a datagram of `n` bytes. -/
def partCommands (id : UInt8) (n : Nat) : Nat → List (List UInt8) → List (List UInt8)
  | _, [] => []
  | off, body :: bodies =>
    ([uciTargetNetwork, uciCmdSocketWriteChunk, id] ++ word off ++ word n ++ body) ::
      partCommands id n (off + body.length) bodies

theorem partCommands_concat (id : UInt8) (n off : Nat) (bodies : List (List UInt8))
    (body : List UInt8) :
    partCommands id n off (bodies ++ [body]) = partCommands id n off bodies ++
      [[uciTargetNetwork, uciCmdSocketWriteChunk, id] ++ word (off + bodies.flatten.length) ++
        word n ++ body] := by
  induction bodies generalizing off with
  | nil => rfl
  | cons b bodies ih =>
    rw [List.cons_append, partCommands, ih, partCommands, List.flatten_cons, List.length_append,
      ← Nat.add_assoc]
    rfl

-- Three bytes in two parts: the second starts at offset 2.
example : partCommands 5 3 0 [[0xa, 0xb], [0xc]] =
    [[uciTargetNetwork, uciCmdSocketWriteChunk, 5, 0, 0, 3, 0, 0xa, 0xb],
      [uciTargetNetwork, uciCmdSocketWriteChunk, 5, 2, 0, 3, 0, 0xc]] := by decide +kernel

theorem ramBytes_add (ram : Nat → UInt8) (a n k : Nat) :
    ramBytes ram a (n + k) = ramBytes ram a n ++ ramBytes ram (a + n) k := by
  simp only [ramBytes, List.range_add, List.map_append, List.map_map]
  refine congrArg _ (List.map_congr_left fun i _ => ?_)
  simp only [Function.comp_apply, Nat.add_assoc]

theorem ramBytes_prefix (ram : Nat → UInt8) (a : Nat) {k n : Nat} (h : k ≤ n) :
    ramBytes ram a k <+: ramBytes ram a n := by
  obtain ⟨d, rfl⟩ := Nat.exists_eq_add_of_le h
  rw [ramBytes_add]
  exact List.prefix_append _ _

/-- The body of part `i` of the datagram that `m` holds. -/
def partBody (m : UciMem) (i : Nat) : List UInt8 :=
  ramBytes m.ram (m.netUdpSendPtr + uciChunkPartMax * i)
    (min (m.uciSendRem - uciChunkPartMax * i) uciChunkPartMax)

/-- The bodies of the first `k` parts. -/
def partBodies (m : UciMem) (k : Nat) : List (List UInt8) := (List.range k).map (partBody m)

theorem partBodies_succ (m : UciMem) (k : Nat) :
    partBodies m (k + 1) = partBodies m k ++ [partBody m k] := by
  simp [partBodies, List.range_succ]

/-- The first parts are the first bytes of the datagram. -/
theorem flatten_partBodies (m : UciMem) (k : Nat) :
    (partBodies m k).flatten =
      ramBytes m.ram m.netUdpSendPtr (min (uciChunkPartMax * k) m.uciSendRem) := by
  induction k with
  | zero => rw [Nat.mul_zero, Nat.zero_min]; rfl
  | succ k ih =>
    rw [partBodies_succ, List.flatten_append, ih, List.flatten_singleton, partBody]
    by_cases hle : uciChunkPartMax * k ≤ m.uciSendRem
    · rw [Nat.min_eq_left hle, ← ramBytes_add]
      refine congrArg _ ?_
      rw [Nat.mul_succ]
      omega
    · have hnone : min (m.uciSendRem - uciChunkPartMax * k) uciChunkPartMax = 0 := by omega
      have hall : min (uciChunkPartMax * (k + 1)) m.uciSendRem =
          min (uciChunkPartMax * k) m.uciSendRem := by
        rw [Nat.mul_succ]
        omega
      rw [hnone, hall]
      exact List.append_nil _

theorem partBody_length {m : UciMem} {i : Nat} (h : uciChunkPartMax * i < m.uciSendRem) :
    1 ≤ (partBody m i).length ∧ (partBody m i).length ≤ uciChunkPartMax := by
  rw [partBody, length_ramBytes]
  unfold uciChunkPartMax at *
  omega

theorem partLen_partAt {m : UciMem} {i : Nat} (h : uciChunkPartMax * i < m.uciSendRem)
    (hmax : m.uciSendRem < 65535) :
    partLen (partAt m i) = min (m.uciSendRem - uciChunkPartMax * i) uciChunkPartMax := by
  unfold partLen partAt
  dsimp only
  omega

/-- **What `uci_send_part` pushes for each part is the datagram in parts**. -/
theorem partCommands_partBodies {m : UciMem} {k : Nat} (hmax : m.uciSendRem < 65535)
    (h : ∀ i < k, uciChunkPartMax * i < m.uciSendRem) :
    partCommands m.uciSocketId m.uciSendRem 0 (partBodies m k) =
      (List.range k).map fun i => partCommand (partAt m i) := by
  induction k with
  | zero => rfl
  | succ k ih =>
    have hk := h k (Nat.lt_succ_self k)
    rw [partBodies_succ, partCommands_concat, ih fun i hi => h i (Nat.lt_succ_of_lt hi),
      flatten_partBodies, length_ramBytes, Nat.zero_add, Nat.min_eq_left (Nat.le_of_lt hk),
      List.range_succ, List.map_append, List.map_singleton, partCommand, partLen_partAt hk hmax]
    rfl

/-! ## The answers -/

/-- The device's answer to part `i` of a datagram of `n` bytes is in order: no error bit, and the
whole count when the part completes the datagram, else a status line too short for a code or with
the code 00. -/
def Accepted (n i : Nat) (es : List Access) : Prop :=
  ErrorClear es ∧
    if n ≤ uciChunkPartMax * (i + 1)
    then (readsOf .uciRespData es).take 2 = word n
    else (readsOf .uciStatusData es).length < 2 ∨ (readsOf .uciStatusData es).take 2 = [0x30, 0x30]

/-- A status line, when there is one, begins with two digits. -/
def DigitLine (es : List Access) : Prop :=
  ∀ a b rest, readsOf .uciStatusData es = a :: b :: rest → IsDigit a ∧ IsDigit b

theorem lineOk_iff {es : List Access} (h : DigitLine es) :
    LineOk (readsOf .uciStatusData es) ↔
      (readsOf .uciStatusData es).length < 2 ∨
        (readsOf .uciStatusData es).take 2 = [0x30, 0x30] := by
  unfold DigitLine at h
  generalize readsOf .uciStatusData es = line at h ⊢
  match line with
  | [] => simp [LineOk]
  | [a] => simp [LineOk]
  | a :: b :: rest =>
    obtain ⟨ha, hb⟩ := h a b rest rfl
    simp [LineOk, lineCode_eq_zero ha hb]

theorem partOk_iff {m : UciMem} {i : Nat} {es : List Access} (hmax : m.uciSendRem < 65535)
    (hi : uciChunkPartMax * i < m.uciSendRem) (h : DigitLine es) :
    PartOk (partAt m i) es ↔ Accepted m.uciSendRem i es := by
  have hlast : (partAt m i).uciChunkOff + partLen (partAt m i) = (partAt m i).uciSendRem ↔
      m.uciSendRem ≤ uciChunkPartMax * (i + 1) := by
    rw [partLen_partAt hi hmax]
    show uciChunkPartMax * i + _ = m.uciSendRem ↔ _
    rw [Nat.mul_succ]
    omega
  unfold PartOk Accepted
  simp only [hlast, lineOk_iff h]
  rfl

/-! ## The log of the parts -/

/-- The stretch of each part is an exchange of its own. -/
theorem PartsEnd.exchange {m : UciMem} {c : Bool} {segs : List (List Access)}
    (h : PartsEnd m c segs) : ∀ es ∈ segs, ∃ i, Exchange (partCommand (partAt m i)) es := by
  have hpassed : ∀ {segs : List (List Access)},
      (∀ i (h : i < segs.length), Passed (partAt m i) segs[i]) →
      ∀ es ∈ segs, ∃ i, Exchange (partCommand (partAt m i)) es := by
    intro segs hpassed es hes
    obtain ⟨i, hi, rfl⟩ := List.mem_iff_getElem.mp hes
    exact ⟨i, (hpassed i hi).exchange⟩
  cases h with
  | sent hall => exact hpassed hall
  | failed hall _ hlast =>
    intro es hes
    rcases List.mem_append.mp hes with hes | hes
    · exact hpassed hall es hes
    · rw [List.mem_singleton] at hes
      exact hes ▸ ⟨_, hlast⟩

/-- The stretches push the commands, one each, the last one maybe none. -/
theorem flatten_pushed {segs : List (List Access)} {cmds : List (List UInt8)}
    (hle : cmds.length ≤ segs.length)
    (h : ∀ i (hi : i < segs.length), pushed segs[i] = cmds[i]?.toList) :
    (segs.map pushed).flatten = cmds := by
  induction segs generalizing cmds with
  | nil =>
    rw [List.length_nil, Nat.le_zero, List.length_eq_zero_iff] at hle
    rw [hle]
    rfl
  | cons es segs ih =>
    have hhead := h 0 (Nat.zero_lt_succ _)
    rw [List.getElem_cons_zero] at hhead
    have htail : ∀ i (hi : i < segs.length), pushed segs[i] = cmds.tail[i]?.toList := by
      intro i hi
      rw [List.getElem?_tail]
      exact h (i + 1) (Nat.succ_lt_succ hi)
    have hle' : cmds.tail.length ≤ segs.length := by
      rw [List.length_tail]
      exact Nat.sub_le_of_le_add hle
    rw [List.map_cons, List.flatten_cons, ih hle' htail, hhead]
    cases cmds <;> rfl

/-- **What the parts push** is the beginning of the datagram, and all of it on success. -/
theorem PartsEnd.pushed_eq {m : UciMem} {c : Bool} {segs : List (List Access)}
    (hmax : m.uciSendRem < 65535) (h : PartsEnd m c segs) :
    ∃ k, k ≤ segs.length ∧
      (∀ i (hi : i < segs.length), pushed segs[i] =
        (partCommands m.uciSocketId m.uciSendRem 0 (partBodies m k))[i]?.toList) ∧
      (∀ i < k, uciChunkPartMax * i < m.uciSendRem) ∧
      (c = false → m.uciSendRem ≤ uciChunkPartMax * k) := by
  cases h with
  | @sent segs hall hbefore hwhole =>
    refine ⟨segs.length, Nat.le_refl _, fun i hi => ?_, hbefore, fun _ => hwhole⟩
    rw [partCommands_partBodies hmax hbefore, List.getElem?_map, List.getElem?_range hi,
      (hall i hi).sent]
    rfl
  | @failed segs es hall hbefore hlast hbad =>
    have hearlier : ∀ i ≤ segs.length, uciChunkPartMax * i < m.uciSendRem := fun i hi =>
      lt_of_le_of_lt (Nat.mul_le_mul_left _ hi) hbefore
    -- The last stretch pushes its command or nothing.
    obtain ⟨k, hk, hk', hes⟩ : ∃ k, segs.length ≤ k ∧ k ≤ segs.length + 1 ∧ pushed es =
        (((List.range k).map fun i => partCommand (partAt m i))[segs.length]?).toList := by
      rcases hlast.pushed_cases with hnone | hone
      · refine ⟨segs.length, Nat.le_refl _, Nat.le_succ _, ?_⟩
        rw [hnone, List.getElem?_eq_none (by simp)]
        rfl
      · refine ⟨segs.length + 1, Nat.le_succ _, Nat.le_refl _, ?_⟩
        rw [hone, List.getElem?_map, List.getElem?_range (Nat.lt_succ_self _)]
        rfl
    have hall' : ∀ i < k, uciChunkPartMax * i < m.uciSendRem := fun i hi =>
      hearlier i (Nat.le_of_lt_succ (lt_of_lt_of_le hi hk'))
    refine ⟨k, by simpa using hk', fun i hi => ?_, hall', by simp⟩
    rw [partCommands_partBodies hmax hall']
    by_cases hlt : i < segs.length
    · rw [List.getElem_append_left hlt, (hall i hlt).sent, List.getElem?_map,
        List.getElem?_range (lt_of_lt_of_le hlt hk)]
      rfl
    · rw [List.length_append, List.length_singleton] at hi
      obtain rfl : i = segs.length := by omega
      rw [List.getElem_append_right (Nat.le_refl _), List.getElem_singleton]
      exact hes

/-- Success, and its absence, by the answers. -/
theorem PartsEnd.answers {m : UciMem} {c : Bool} {segs : List (List Access)}
    (hmax : m.uciSendRem < 65535) (h : PartsEnd m c segs) (hdigits : ∀ es ∈ segs, DigitLine es) :
    (c = false → ∀ i (hi : i < segs.length), Accepted m.uciSendRem i segs[i]) ∧
    (.expired ∉ segs.flatten → (∀ i (hi : i < segs.length), Accepted m.uciSendRem i segs[i]) →
      c = false) ∧
    ∀ i (hi : i + 1 < segs.length), Accepted m.uciSendRem i segs[i] := by
  cases h with
  | @sent segs hall hbefore =>
    have hok : ∀ i (hi : i < segs.length), Accepted m.uciSendRem i segs[i] := fun i hi =>
      (partOk_iff hmax (hbefore i hi) (hdigits _ (List.getElem_mem hi))).mp (hall i hi).ok
    exact ⟨fun _ => hok, fun _ _ => rfl, fun i hi => hok i (Nat.lt_of_succ_lt hi)⟩
  | @failed segs es hall hbefore hlast hbad =>
    refine ⟨by simp, fun hexp hok => ?_, fun i hi => ?_⟩
    · have hes : Accepted m.uciSendRem segs.length es := by
        have := hok segs.length (by simp)
        rwa [List.getElem_append_right (Nat.le_refl _), List.getElem_singleton] at this
      rcases hbad with hbad | hbad
      · exact absurd (List.mem_flatten.mpr ⟨es, by simp, hbad⟩) hexp
      · exact absurd ((partOk_iff hmax hbefore (hdigits es (by simp))).mpr hes) hbad
    · have hi' : i < segs.length := by
        rw [List.length_append, List.length_singleton] at hi
        omega
      have hlt : uciChunkPartMax * i < m.uciSendRem :=
        lt_of_le_of_lt (Nat.mul_le_mul_left _ (Nat.le_of_lt hi')) hbefore
      rw [List.getElem_append_left hi']
      exact (partOk_iff hmax hlt (hdigits _ (List.mem_append_left _ (List.getElem_mem hi')))).mp
        (hall i hi').ok

/-! ## `net_udp_send` -/

/-- No pass of `@part_loop` follows another for ever. -/
theorem partLoop_acc {t : State δ} (hoff : t.mem.uciChunkOff < t.mem.uciSendRem)
    (hmax : t.mem.uciSendRem < 65535) :
    Acc (fun t₂ t₁ => (partLoop D ()).Returns t₁ (.inl ()) t₂) t := by
  generalize hleft : t.mem.uciSendRem - t.mem.uciChunkOff = left
  induction left using Nat.strong_induction_on generalizing t with
  | _ left ih =>
    refine ⟨t, fun t' hpass => ?_⟩
    obtain ⟨hrem, hmoved, hoff'⟩ := partLoop_next hoff hmax hpass
    exact ih (t'.mem.uciSendRem - t'.mem.uciChunkOff) (by omega) hoff' (by omega) rfl

/-- A chunked send of `n` bytes at `ptr`, by its carry: the stretch of the connect, those of the
parts, and the bodies that the parts carry. -/
structure SentInParts (m : UciMem) (ptr n : Nat) (c : Bool) (m' : UciMem) (conn : List Access)
    (segs : List (List Access)) (bodies : List (List UInt8)) : Prop where
  connect : pushed conn = [] ∨ pushed conn = [connectCommand m.netUdpDest]
  reused : m.uciSocketOpen ≠ 0 → conn = []
  opened : m.uciSocketOpen = 0 → m'.uciSocketOpen ≠ 0 →
    pushed conn = [connectCommand m.netUdpDest] ∧ ErrorClear conn ∧ m'.uciSocketId ≠ 0 ∧
      (readsOf .uciRespData conn).head? = some m'.uciSocketId
  commands : pushed (conn ++ segs.flatten) =
    pushed conn ++ partCommands m'.uciSocketId n 0 bodies
  parts : ∀ i (hi : i < segs.length),
    pushed segs[i] = (partCommands m'.uciSocketId n 0 bodies)[i]?.toList
  sizes : ∀ body ∈ bodies, 1 ≤ body.length ∧ body.length ≤ 888
  inOrder : bodies.flatten <+: ramBytes m.ram ptr n
  whole : c = false → bodies.flatten = ramBytes m.ram ptr n
  /-- Success means that the answers are in order. -/
  accepted : (∀ es ∈ segs, DigitLine es) → c = false →
    m'.uciSocketOpen ≠ 0 ∧ ∀ i (hi : i < segs.length), Accepted n i segs[i]
  /-- Answers in order mean success, time allowing. -/
  succeeds : (∀ es ∈ segs, DigitLine es) → m'.uciSocketOpen ≠ 0 → .expired ∉ segs.flatten →
    (∀ i (hi : i < segs.length), Accepted n i segs[i]) → c = false
  /-- Only the last part can have failed. -/
  stops : (∀ es ∈ segs, DigitLine es) → ∀ i (hi : i + 1 < segs.length), Accepted n i segs[i]

/-- **A chunked send**, over every device: it ends, what it pushes is the datagram in parts, it
succeeds on answers that are in order, and it stops at the first that is not. -/
theorem netUdpSend_chunked {ptr : Nat} (hpos : 0 < s.mem.netUdpSendLen)
    (hfits : s.mem.netUdpSendLen ≤ 1472) :
    (D.Ticks s.dev → (netUdpSend D true ptr).Ends s) ∧
    (∀ t : State δ, t.mem.uciSendRem = s.mem.netUdpSendLen → t.mem.uciChunkOff = 0 →
      Acc (fun t₂ t₁ => (partLoop D ()).Returns t₁ (.inl ()) t₂) t) ∧
    ∀ c s', (netUdpSend D true ptr).Returns s c s' →
      ∃ conn segs bodies, s'.log = s.log ++ (conn ++ List.flatten segs) ∧
        SentInParts s.mem ptr s.mem.netUdpSendLen c s'.mem conn segs bodies := by
  refine ⟨netUdpSend_ends true ptr, fun t hrem hoff => partLoop_acc (by omega) (by omega), ?_⟩
  intro c s' h
  simp only [netUdpSend, Prog.returns_bind, Prog.returns_ite, Prog.returns_pure] at h
  obtain ⟨u₁, s₁, hstage, m, s₁', hcells, h⟩ := h
  obtain ⟨hlog₁, hmem₁, -⟩ := store_spec hstage
  obtain ⟨rfl, rfl⟩ := cells_spec hcells
  have hrem₁ : s₁.mem.uciSendRem = s.mem.netUdpSendLen := by rw [hmem₁]
  have hmax : netUdpSendMax true = 1472 := rfl
  rw [hrem₁, hmax] at h
  rcases h with ⟨hzero, -⟩ | ⟨-, ⟨hbig, -⟩ | ⟨-, c₂, s₂, hopen, h⟩⟩
  · omega
  · omega
  obtain ⟨conn, hconn, hpushed, hkept, hopened, hhas, hcore, -⟩ := openSocket_spec hopen
  have hdest₁ : s₁.mem.netUdpDest = s.mem.netUdpDest := by rw [hmem₁]
  have hopen₁ : s₁.mem.uciSocketOpen = s.mem.uciSocketOpen := by rw [hmem₁]
  rw [hlog₁] at hconn
  rw [hdest₁] at hpushed hopened
  rw [hopen₁] at hkept hopened
  rcases h with ⟨rfl, rfl, rfl⟩ | ⟨hc₂, h⟩
  · have hclosed : ¬ s'.mem.uciSocketOpen ≠ 0 := fun h => by cases hhas.mpr h
    refine ⟨conn, [], [], by simpa using hconn, hpushed.pushed_cases, fun hne => ?_,
      fun _ h => absurd h hclosed, hpushed.pushed_append [], by simp, by simp,
      List.nil_prefix, by simp, by simp, fun _ h => absurd h hclosed, by simp⟩
    cases (hkept hne).1
  rw [Bool.not_eq_true] at hc₂
  rcases h with ⟨-, u₃, s₃, hzero, h⟩ | ⟨hcontra, -⟩
  swap
  · exact absurd trivial hcontra
  obtain ⟨hlog₃, hmem₃, -⟩ := store_spec hzero
  have hrem₂ : s₂.mem.uciSendRem = s.mem.netUdpSendLen := by
    have hkeep : s₂.mem.uciSendRem = s₁.mem.uciSendRem := (congrArg UciMem.uciSendRem hcore :)
    rw [hkeep, hrem₁]
  have hrem₃ : s₃.mem.uciSendRem = s.mem.netUdpSendLen := by rw [hmem₃, hrem₂]
  have hptr₃ : s₃.mem.netUdpSendPtr = ptr := by
    have hkeep : s₂.mem.netUdpSendPtr = s₁.mem.netUdpSendPtr :=
      (congrArg UciMem.netUdpSendPtr hcore :)
    rw [hmem₃, hkeep, hmem₁]
  have hram₃ : s₃.mem.ram = s.mem.ram := by
    have hkeep : s₂.mem.ram = s₁.mem.ram := (congrArg UciMem.ram hcore :)
    rw [hmem₃, hkeep, hmem₁]
  have hid₃ : s₃.mem.uciSocketId = s₂.mem.uciSocketId := by rw [hmem₃]
  have hopen₃ : s₃.mem.uciSocketOpen = s₂.mem.uciSocketOpen := by rw [hmem₃]
  obtain ⟨segs, hsegs, hdone, hends⟩ :=
    partLoop_spec (by rw [hmem₃]) (by omega) (by omega) h
  have hid : s'.mem.uciSocketId = s₂.mem.uciSocketId :=
    ((congrArg UciMem.uciSocketId hdone :) : _ = s₃.mem.uciSocketId).trans hid₃
  have hopen' : s'.mem.uciSocketOpen = s₂.mem.uciSocketOpen :=
    ((congrArg UciMem.uciSocketOpen hdone :) : _ = s₃.mem.uciSocketOpen).trans hopen₃
  have hsocket : s'.mem.uciSocketOpen ≠ 0 := by
    rw [hopen']
    exact hhas.mp hc₂
  have hmax₃ : s₃.mem.uciSendRem < 65535 := by omega
  obtain ⟨k, hk, hparts, hbefore, hwhole⟩ := hends.pushed_eq hmax₃
  rw [hid₃, ← hid] at hparts
  have hflat : pushed segs.flatten =
      partCommands s'.mem.uciSocketId s₃.mem.uciSendRem 0 (partBodies s₃.mem k) := by
    rw [pushed_flatten fun es hes => (hends.exchange es hes).imp' _ fun _ h => h]
    refine flatten_pushed ?_ hparts
    have hlen : (partCommands s₃.mem.uciSocketId s₃.mem.uciSendRem 0 (partBodies s₃.mem k)).length =
        k := by
      rw [partCommands_partBodies hmax₃ hbefore, List.length_map, List.length_range]
    rw [hid₃, ← hid] at hlen
    rwa [hlen]
  have hbodies : (partBodies s₃.mem k).flatten =
      ramBytes s.mem.ram ptr (min (uciChunkPartMax * k) s.mem.netUdpSendLen) := by
    rw [flatten_partBodies, hram₃, hptr₃, hrem₃]
  rw [hrem₃] at hparts hflat
  refine ⟨conn, segs, partBodies s₃.mem k, ?_, hpushed.pushed_cases, fun hne => (hkept hne).2.1, ?_,
    ?_, hparts, fun body hbody => ?_, ?_, fun hc => ?_, fun hdigits hc => ?_, fun hdigits _ => ?_,
    fun hdigits => ?_⟩
  · rw [hsegs, hlog₃, hconn, List.append_assoc]
  · intro hzero _
    rw [hid]
    exact hopened hzero hc₂
  · rw [hpushed.pushed_append, hflat]
  · obtain ⟨i, hi, rfl⟩ := List.mem_map.mp hbody
    exact partBody_length (hbefore i (List.mem_range.mp hi))
  · rw [hbodies]
    exact ramBytes_prefix _ _ (Nat.min_le_right _ _)
  · have hle := hwhole hc
    rw [hrem₃] at hle
    rw [hbodies, Nat.min_eq_right hle]
  · rw [← hrem₃]
    exact ⟨hsocket, (hends.answers hmax₃ hdigits).1 hc⟩
  · rw [← hrem₃]
    exact (hends.answers hmax₃ hdigits).2.1
  · rw [← hrem₃]
    exact (hends.answers hmax₃ hdigits).2.2

theorem sampleParts_returns :
    ((netUdpSend scriptDevice true 0xfffe).run 4 sampleWrite).isSome := by decide +kernel

theorem netUdpSend_chunked_sample :
    let r := ((netUdpSend scriptDevice true 0xfffe).run 4 sampleWrite).get sampleParts_returns
    r.1 = false ∧
    ∃ segs bodies, r.2.log = List.flatten segs ∧
      pushed (List.flatten segs) = partCommands 5 3 0 bodies ∧ bodies.flatten = [0, 0, 0] := by
  have hpos : 0 < sampleWrite.mem.netUdpSendLen := by decide
  obtain ⟨-, -, hsend⟩ := netUdpSend_chunked hpos (by decide)
  obtain ⟨conn, segs, bodies, hlog, hparts⟩ := hsend _ _ (Prog.returns_get sampleParts_returns)
  have hc : (((netUdpSend scriptDevice true 0xfffe).run 4 sampleWrite).get
      sampleParts_returns).1 = false := by decide +kernel
  have hid : (((netUdpSend scriptDevice true 0xfffe).run 4 sampleWrite).get
      sampleParts_returns).2.mem.uciSocketId = 5 := by decide +kernel
  obtain rfl := hparts.reused (by decide)
  have hcommands := hparts.commands
  rw [hid] at hcommands
  exact ⟨hc, segs, bodies, hlog, hcommands, hparts.whole hc⟩

end C64WireGuard.Uci
