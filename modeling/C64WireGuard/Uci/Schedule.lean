import C64WireGuard.Uci.Punctual

/-!
# A firmware that takes its steps in turn

Between two accesses a tenth of a second passes and the firmware accepts a command, stages a block or
takes notice of an accept, in turn, if there is something of the kind to do. It keeps its times
(`inTurn_punctual`), whatever the program does, provided every block but the last of a reply holds
two bytes: the one access that falls between the staging of a block and the notice taken of the
accept before must not drain it.
-/

namespace C64WireGuard.Uci

variable {answer : List UInt8 → List Block} {u : Ultimate} {k c : Nat}

/-- Every block but the last holds two bytes. -/
def Spacious (blocks : List Block) : Prop := ∀ b ∈ blocks.dropLast, 2 ≤ b.data.length

/-- Accept, stage, take notice, with every read of the status torn. -/
def inTurn (n : Nat) : Move :=
  ⟨1, some (sampleWork (n % 3)), ⟨true, false, true, false, false, true, false⟩⟩

/-- The interface when the next move is number `c`. While an accept is to be taken notice of, the
block behind it holds `k` bytes. -/
structure Steady (k c : Nat) (u : Ultimate) : Prop where
  busy : u.cmdBusy = true → u.state = .busy ∧ u.acceptTenths ≤ (c + 2) % 3
  asked : u.asked = true →
    u.state = .busy ∧ u.cmdBusy = false ∧ u.todo ≠ [] ∧ u.stageTenths ≤ (c + 1) % 3
  more : u.state = .dataMore → u.todo ≠ [] ∧ (u.dataAcc = true → c % 3 = 2 ∧ k ≤ u.data.length)
  spacious : Spacious u.todo
  accepts : u.acceptTenths ≤ 3
  stages : u.stageTenths ≤ 3

theorem steady_idle : Steady 1 0 idleUltimate where
  busy h := Bool.noConfusion h
  asked h := Bool.noConfusion h
  more h := CmdState.noConfusion h
  spacious _ hb := absurd hb List.not_mem_nil
  accepts := Nat.zero_le _
  stages := Nat.zero_le _

/-! ## A step of the firmware -/

theorem Spacious.tail {b : Block} {rest : List Block} (h : Spacious (b :: rest)) : Spacious rest := by
  intro b' hb'
  cases rest with
  | nil => exact absurd hb' List.not_mem_nil
  | cons b'' rest => exact h b' (List.mem_cons_of_mem _ hb')

theorem Spacious.head {b b' : Block} {rest : List Block} (h : Spacious (b :: b' :: rest)) :
    2 ≤ b.data.length := h b List.mem_cons_self

/-- A tenth goes by in which the firmware finds nothing to do. -/
theorem Steady.waited (h : Steady 1 c u) (hbusy : c % 3 = 0 → u.cmdBusy = false)
    (hasked : c % 3 = 1 → u.asked = false)
    (hacc : c % 3 = 2 → u.state = .dataMore → u.dataAcc = false) : Steady 2 (c + 1) (u.after 1) where
  busy hset := by
    have hset' : u.cmdBusy = true := hset
    obtain ⟨hstate, htenths⟩ := h.busy hset'
    refine ⟨hstate, ?_⟩
    have hne : c % 3 ≠ 0 := fun hc => Bool.noConfusion ((hbusy hc).symm.trans hset')
    simp only [Ultimate.after, hset', if_true]
    omega
  asked hset := by
    have hset' : u.asked = true := hset
    obtain ⟨hstate, haccepted, htodo, htenths⟩ := h.asked hset'
    refine ⟨hstate, haccepted, htodo, ?_⟩
    have hne : c % 3 ≠ 1 := fun hc => Bool.noConfusion ((hasked hc).symm.trans hset')
    simp only [Ultimate.after, hset', if_true]
    omega
  more hstate := by
    obtain ⟨htodo, hdata⟩ := h.more hstate
    refine ⟨htodo, fun hset => ?_⟩
    have hset' : u.dataAcc = true := hset
    exact Bool.noConfusion ((hacc (hdata hset').1 hstate).symm.trans hset')
  spacious := h.spacious
  accepts := by
    by_cases hset : u.cmdBusy = true
    · have htenths := (h.busy hset).2
      simp only [Ultimate.after, hset, if_true]
      omega
    · simpa [Ultimate.after, hset] using h.accepts
  stages := by
    by_cases hset : u.asked = true
    · have htenths := (h.asked hset).2.2.2
      simp only [Ultimate.after, hset, if_true]
      omega
    · simpa [Ultimate.after, hset] using h.stages

/-- `HANDSHAKE_ACCEPT_COMMAND`. -/
theorem Steady.accept {blocks : List Block} (hblocks : blocks ≠ [] ∧ Spacious blocks)
    (h : Steady 1 c u) (hset : u.cmdBusy = true) : Steady 2 (c + 1) ((u.after 1).accept blocks) := by
  obtain ⟨hstate, htenths⟩ := h.busy hset
  refine ⟨fun hcontra => Bool.noConfusion hcontra, fun _ => ⟨hstate, rfl, hblocks.1, Nat.zero_le _⟩,
    fun hmore => CmdState.noConfusion (hstate.symm.trans hmore), hblocks.2, ?_, Nat.zero_le _⟩
  simp only [Ultimate.accept, Ultimate.after, hset, if_true]
  omega

/-- `HANDSHAKE_VALIDATE_MORE` and `HANDSHAKE_VALIDATE_LAST`. -/
theorem Steady.stage {b : Block} {rest : List Block} (hc : c % 3 = 1) (h : Steady 1 c u)
    (htodo : u.todo = b :: rest) (hset : u.asked = true) :
    Steady 2 (c + 1) ((u.after 1).stage b rest) := by
  obtain ⟨-, haccepted, -, htenths⟩ := h.asked hset
  have hspacious : Spacious (b :: rest) := htodo ▸ h.spacious
  refine ⟨fun hbusy => Bool.noConfusion (haccepted.symm.trans hbusy),
    fun hcontra => Bool.noConfusion hcontra, fun hmore => ?_, hspacious.tail, ?_, ?_⟩
  · cases rest with
    | nil => exact CmdState.noConfusion hmore
    | cons b' rest => exact ⟨List.cons_ne_nil _ _, fun _ => ⟨by omega, hspacious.head⟩⟩
  · simpa [Ultimate.stage, Ultimate.after, haccepted] using h.accepts
  · simp only [Ultimate.stage, Ultimate.after, hset, if_true]
    omega

/-- One move. -/
theorem Steady.moved (hanswer : ∀ cmd, answer cmd ≠ [] ∧ Spacious (answer cmd)) (h : Steady 1 c u) :
    Steady 2 (c + 1) (u.moved answer (inTurn c)) := by
  have hturn : c % 3 = 0 ∨ c % 3 = 1 ∨ c % 3 = 2 := by omega
  rcases hturn with hc | hc | hc
  · have hmoved : u.moved answer (inTurn c) = (u.after 1).work answer .accept := by
      simp [Ultimate.moved, inTurn, hc, sampleWork]
    rw [hmoved]
    by_cases hset : u.cmdBusy = true
    · have hwork : (u.after 1).work answer .accept = (u.after 1).accept (answer u.command) :=
        if_pos hset
      rw [hwork]
      exact h.accept (hanswer _) hset
    · have hwork : (u.after 1).work answer .accept = u.after 1 := if_neg hset
      rw [hwork]
      exact h.waited (fun _ => eq_false_of_ne_true hset) (by omega) (by omega)
  · have hmoved : u.moved answer (inTurn c) = (u.after 1).work answer .stage := by
      simp [Ultimate.moved, inTurn, hc, sampleWork]
    rw [hmoved]
    by_cases hset : u.asked = true
    · obtain ⟨hstate, haccepted, hsome, -⟩ := h.asked hset
      obtain ⟨b, rest, htodo⟩ := List.exists_cons_of_ne_nil hsome
      have hwork : (u.after 1).work answer .stage = (u.after 1).stage b rest := by
        simp [Ultimate.work, Ultimate.after, htodo, hstate, haccepted, hset]
      rw [hwork]
      exact h.stage hc htodo hset
    · have hwork : (u.after 1).work answer .stage = u.after 1 := by
        cases htodo : u.todo <;> simp [Ultimate.work, Ultimate.after, htodo, hset]
      rw [hwork]
      exact h.waited (by omega) (fun _ => eq_false_of_ne_true hset) (by omega)
  · have hmoved : u.moved answer (inTurn c) = (u.after 1).work answer .noticed := by
      simp [Ultimate.moved, inTurn, hc, sampleWork]
    rw [hmoved]
    by_cases hset : u.dataAcc = true ∧ u.asked = false
    · have hwork : (u.after 1).work answer .noticed = { u with dataAcc := false }.after 1 :=
        if_pos hset
      have hquiet : Steady 1 c { u with dataAcc := false } :=
        ⟨h.busy, h.asked, fun hmore => ⟨(h.more hmore).1, fun hcontra => Bool.noConfusion hcontra⟩,
          h.spacious, h.accepts, h.stages⟩
      rw [hwork]
      exact hquiet.waited (by omega) (by omega) fun _ _ => rfl
    · have hwork : (u.after 1).work answer .noticed = u.after 1 := if_neg hset
      rw [hwork]
      refine h.waited (by omega) (by omega) fun _ hmore => ?_
      by_contra hacc
      refine hset ⟨eq_true_of_ne_false hacc, ?_⟩
      by_contra hasked
      exact CmdState.noConfusion ((h.asked (eq_true_of_ne_false hasked)).1.symm.trans hmore)

/-! ## An access of the program -/

theorem Steady.weaken {k' : Nat} (h : Steady k c u) (hle : k' ≤ k) : Steady k' c u where
  busy := h.busy
  asked := h.asked
  more hmore := by
    obtain ⟨htodo, hdata⟩ := h.more hmore
    refine ⟨htodo, fun hacc => ?_⟩
    obtain ⟨hc, hlen⟩ := hdata hacc
    exact ⟨hc, hle.trans hlen⟩
  spacious := h.spacious
  accepts := h.accepts
  stages := h.stages

/-- A read takes one byte at most. -/
theorem Steady.read (h : Steady 2 c u) (r : ReadReg) : Steady 1 c (u.read r).2 := by
  have hsame : Steady 1 c u := h.weaken (by decide)
  have htaken : Steady 1 c { u with data := u.data.tail } := by
    refine ⟨h.busy, h.asked, fun hmore => ?_, h.spacious, h.accepts, h.stages⟩
    obtain ⟨htodo, hdata⟩ := h.more hmore
    refine ⟨htodo, fun hacc => ?_⟩
    obtain ⟨hc, hlen⟩ := hdata hacc
    refine ⟨hc, ?_⟩
    show 1 ≤ u.data.tail.length
    rw [List.length_tail]
    omega
  have hline : Steady 1 c { u with line := u.line.tail } :=
    ⟨hsame.busy, hsame.asked, hsame.more, hsame.spacious, hsame.accepts, hsame.stages⟩
  cases r with
  | uciRespData =>
    simp only [Ultimate.read]
    split
    · exact htaken
    · exact hsame
  | uciStatusData =>
    simp only [Ultimate.read]
    split
    · exact hline
    · exact hsame
  | uciStatus => exact hsame
  | uciId => exact hsame
  | ciaTodHour => exact hsame
  | ciaTodTenths => exact hsame
  | ciaCrb => exact hsame

theorem Steady.push (h : Steady k c u) : Steady k c u.push := by
  by_cases hidle : u.Idle
  · rw [Ultimate.push, if_pos hidle]
    refine ⟨fun _ => ⟨rfl, Nat.zero_le _⟩, fun hasked => ?_, fun hmore => CmdState.noConfusion hmore,
      h.spacious, Nat.zero_le _, h.stages⟩
    exact CmdState.noConfusion (hidle.1.symm.trans (h.asked hasked).1)
  · rw [Ultimate.push, if_neg hidle]
    exact ⟨h.busy, h.asked, h.more, h.spacious, h.accepts, h.stages⟩

theorem Steady.nextData (h : Steady k c u) : Steady k c u.nextData := by
  have hidle : u.state ≠ .busy → u.cmdBusy = false ∧ u.asked = false := by
    intro hstate
    refine ⟨eq_false_of_ne_true fun hbusy => hstate (h.busy hbusy).1, ?_⟩
    exact eq_false_of_ne_true fun hasked => hstate (h.asked hasked).1
  unfold Ultimate.nextData
  split
  · rename_i hlast
    obtain ⟨hbusy, hasked⟩ := hidle (by simp [hlast])
    exact ⟨fun hcontra => Bool.noConfusion (hbusy.symm.trans hcontra),
      fun hcontra => Bool.noConfusion (hasked.symm.trans hcontra),
      fun hmore => CmdState.noConfusion hmore, h.spacious, h.accepts, h.stages⟩
  · rename_i hmore
    obtain ⟨hbusy, hasked⟩ := hidle (by simp [hmore])
    split
    · exact ⟨fun hcontra => Bool.noConfusion (hbusy.symm.trans hcontra),
        fun hcontra => Bool.noConfusion (hasked.symm.trans hcontra),
        fun hmore => CmdState.noConfusion hmore, h.spacious, h.accepts, h.stages⟩
    · exact ⟨fun hcontra => Bool.noConfusion (hbusy.symm.trans hcontra),
        fun _ => ⟨rfl, hbusy, (h.more hmore).1, Nat.zero_le _⟩,
        fun hmore => CmdState.noConfusion hmore, h.spacious, h.accepts, Nat.zero_le _⟩
  · exact h

theorem Steady.abort (h : Steady k c u) : Steady k c u.abort where
  busy hcontra := Bool.noConfusion hcontra
  asked hcontra := Bool.noConfusion hcontra
  more hcontra := CmdState.noConfusion hcontra
  spacious _ hb := absurd hb List.not_mem_nil
  accepts := h.accepts
  stages := h.stages

theorem Steady.write (h : Steady k c u) (r : WriteReg) (v : UInt8) : Steady k c (u.write r v) := by
  cases r with
  | uciControl =>
    have hpush : Steady k c (if v &&& uciCtrlPushCmd ≠ 0 then u.push else u) := by
      split_ifs
      exacts [h.push, h]
    show Steady k c (u.control v)
    unfold Ultimate.control
    generalize (if v &&& uciCtrlPushCmd ≠ 0 then u.push else u) = u₁ at hpush
    have hnext : Steady k c (if v &&& uciCtrlNextData ≠ 0 then u₁.nextData else u₁) := by
      split_ifs
      exacts [hpush.nextData, hpush]
    dsimp only
    generalize (if v &&& uciCtrlNextData ≠ 0 then u₁.nextData else u₁) = u₂ at hnext
    have habort : Steady k c (if v &&& uciCtrlAbort ≠ 0 then u₂.abort else u₂) := by
      split_ifs
      exacts [hnext.abort, hnext]
    generalize (if v &&& uciCtrlAbort ≠ 0 then u₂.abort else u₂) = u₃ at habort
    split_ifs
    · exact ⟨habort.busy, habort.asked, habort.more, habort.spacious, habort.accepts, habort.stages⟩
    · exact habort
  | uciCmdData => exact ⟨h.busy, h.asked, h.more, h.spacious, h.accepts, h.stages⟩
  | ciaTodTenths => exact ⟨h.busy, h.asked, h.more, h.spacious, h.accepts, h.stages⟩
  | ciaTodHour => exact h
  | ciaTodMin => exact h
  | ciaTodSec => exact h
  | ciaCrb => exact h

/-! ## The device -/

/-- One access, with the move before it. -/
theorem Steady.next (hanswer : ∀ cmd, answer cmd ≠ [] ∧ Spacious (answer cmd)) {a : Access}
    {d d' : Ultimate × Nat} (hnext : (ultimate answer inTurn).Next a d d') (h : Steady 1 d.2 d.1) :
    Steady 1 d'.2 d'.1 := by
  have hmoved := h.moved hanswer
  cases hnext with
  | read r d => exact hmoved.read r
  | write r v d => exact (hmoved.write r v).weaken (by decide)

theorem Steady.via (hanswer : ∀ cmd, answer cmd ≠ [] ∧ Spacious (answer cmd))
    {d d' : Ultimate × Nat} (hvia : (ultimate answer inTurn).Via (fun _ => True) d d')
    (h : Steady 1 d.2 d.1) : Steady 1 d'.2 d'.1 := by
  induction hvia with
  | refl => exact h
  | tail _ hnext ih =>
    obtain ⟨a, -, hnext⟩ := hnext
    exact ih.next hanswer hnext

/-- A look shows what the move has made. -/
theorem next_look {a : Access} {d d' : Ultimate × Nat} (ha : a.Poll)
    (hnext : (ultimate answer inTurn).Next a d d') :
    d' = (d.1.moved answer (inTurn d.2), d.2 + 1) := by
  cases hnext with
  | read r d =>
    cases r with
    | uciStatus => rfl
    | ciaTodHour => rfl
    | ciaTodTenths => rfl
    | uciRespData => exact ha.elim
    | uciStatusData => exact ha.elim
    | uciId => exact ha.elim
    | ciaCrb => exact ha.elim
  | write r v d => exact ha.elim

/-- A command is accepted with the third look, at the latest. -/
theorem Steady.looks_accepted (hanswer : ∀ cmd, answer cmd ≠ [] ∧ Spacious (answer cmd))
    {d : Ultimate × Nat} (h : Steady 1 d.2 d.1) :
    Acc ((ultimate answer inTurn).Looking fun x => x.1.cmdBusy = true) d := by
  refine acc_of_weight (I := fun d => Steady 1 d.2 d.1)
    (fun d => if d.1.cmdBusy = true then 3 - (d.2 + 2) % 3 else 0) (fun d d' hd hlook => ?_) h
  obtain ⟨hbusy, a, ha, hnext⟩ := hlook
  refine ⟨hd.next hanswer hnext, ?_⟩
  obtain rfl := next_look ha hnext
  dsimp only
  rw [if_pos hbusy]
  by_cases hc : d.2 % 3 = 0
  · have haccepted : (d.1.moved answer (inTurn d.2)).cmdBusy = false := by
      simp [Ultimate.moved, inTurn, hc, sampleWork, Ultimate.work, Ultimate.after, hbusy,
        Ultimate.accept]
    rw [haccepted, if_neg Bool.false_ne_true]
    omega
  · split_ifs <;> omega

/-- A block is staged with the third look, at the latest. -/
theorem Steady.looks_staged (hanswer : ∀ cmd, answer cmd ≠ [] ∧ Spacious (answer cmd))
    {d : Ultimate × Nat} (h : Steady 1 d.2 d.1) :
    Acc ((ultimate answer inTurn).Looking fun x => x.1.asked = true) d := by
  refine acc_of_weight (I := fun d => Steady 1 d.2 d.1)
    (fun d => if d.1.asked = true then 3 - (d.2 + 1) % 3 else 0) (fun d d' hd hlook => ?_) h
  obtain ⟨hasked, a, ha, hnext⟩ := hlook
  refine ⟨hd.next hanswer hnext, ?_⟩
  obtain ⟨hstate, haccepted, hsome, -⟩ := hd.asked hasked
  obtain ⟨b, rest, htodo⟩ := List.exists_cons_of_ne_nil hsome
  obtain rfl := next_look ha hnext
  dsimp only
  rw [if_pos hasked]
  by_cases hc : d.2 % 3 = 1
  · have hstaged : (d.1.moved answer (inTurn d.2)).asked = false := by
      simp [Ultimate.moved, inTurn, hc, sampleWork, Ultimate.work, Ultimate.after, hasked, hstate,
        haccepted, htodo, Ultimate.stage]
    rw [hstaged, if_neg Bool.false_ne_true]
    omega
  · split_ifs <;> omega

/-- **The firmware that takes its steps in turn keeps its times.** -/
theorem inTurn_punctual (hanswer : ∀ cmd, answer cmd ≠ [] ∧ Spacious (answer cmd))
    {d : Ultimate × Nat} (h : Steady 1 d.2 d.1) :
    (ultimate answer inTurn).Punctual Prod.fst d where
  accepts d' hvia := (h.via hanswer hvia).looks_accepted hanswer
  stages d' hvia := (h.via hanswer hvia).looks_staged hanswer
  acceptTenths d' hvia := by
    have htenths := (h.via hanswer hvia).accepts
    unfold uciWaitIdleBudgetTenths
    omega
  stageTenths d' hvia := by
    have htenths := (h.via hanswer hvia).stages
    unfold uciRespWaitBudgetTenths
    omega
  noticed d' hvia hmore hdata := by
    obtain ⟨-, hacc⟩ := (h.via hanswer hvia).more hmore
    refine eq_false_of_ne_true fun hset => ?_
    have hlen := (hacc hset).2
    rw [hdata] at hlen
    exact Nat.not_succ_le_zero 0 hlen

end C64WireGuard.Uci
