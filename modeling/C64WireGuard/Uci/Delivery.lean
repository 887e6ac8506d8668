import C64WireGuard.Uci.Answers
import C64WireGuard.Uci.Punctual

/-!
# Receiving from a firmware that keeps its times

`SOCKET_READ` is answered by a length and as many bytes, in blocks of any size (`Conforming`).
The receive loop takes the bytes after it whole (`byteLoops_achieve`): for every split of the reply,
every moment at which a block is staged or an accept is taken notice of, and every way in which a
read that falls on such a moment is torn.

What the firmware still has to give is one list at any moment (`Coming`). The receive loop takes its
head, or comes closer to a block that holds it.
-/

namespace C64WireGuard.Uci

open Prog Bytes

variable {δ α : Type} {D : Device δ} {reply : List UInt8 → List Block → Prop} {spec : δ → Ultimate}
  {s : State δ}

/-! ## A reply on its way -/

/-- The length that the two bytes of the header stand for. -/
def Announces (b₀ b₁ : UInt8) (n : Nat) : Prop :=
  n ≤ uciReadChunkMax ∧ n = if b₀ &&& b₁ = 0xff then 0 else b₀.toNat + 256 * b₁.toNat

/-- The blocks of a reply with a header and a payload: the first holds the header, and none is
empty. -/
structure Conforming (b₀ b₁ : UInt8) (payload : List UInt8) (blocks : List Block) : Prop where
  announces : Announces b₀ b₁ payload.length
  whole : blocks.flatMap Block.data = b₀ :: b₁ :: payload
  first : ∃ b rest, blocks = b :: rest ∧ 2 ≤ b.data.length
  filled : ∀ b ∈ blocks, b.data ≠ []

/-- A reply to `SOCKET_READ` that carries `payload`, or no datagram when that is empty. -/
def Carries (payload : List UInt8) (blocks : List Block) : Prop :=
  ∃ b₀ b₁, Conforming b₀ b₁ payload blocks

/-- The next block is on its way, with something that is still to be read. -/
structure OnTheWay (past : List Executed) (left : List UInt8) (u : Ultimate) : Prop where
  state : u.state = .busy
  accepted : u.cmdBusy = false
  asked : u.asked = true
  more : left ≠ []
  filled : ∀ b ∈ u.todo, b.data ≠ []
  left : left = u.todo.flatMap Block.data
  executed : u.executed = past

/-- A block is there. -/
structure Presented (past : List Executed) (left : List UInt8) (u : Ultimate) : Prop where
  accepted : u.cmdBusy = false
  asked : u.asked = false
  state : u.state = if u.todo.isEmpty then .dataLast else .dataMore
  filled : ∀ b ∈ u.todo, b.data ≠ []
  left : left = u.data ++ u.todo.flatMap Block.data
  executed : u.executed = past

/-- The bytes that are still to be read. -/
def Coming (past : List Executed) (left : List UInt8) (u : Ultimate) : Prop :=
  Presented past left u ∨ OnTheWay past left u

variable {past : List Executed} {left : List UInt8} {u u' : Ultimate} {n : Nat}

theorem Presented.staged (h : Presented past left u) : u.staged = true := by
  have hstate := h.state
  unfold Ultimate.staged
  split at hstate <;> simp [hstate]

/-- A block that is there stays as it is. -/
theorem Presented.moved (h : Presented past left u)
    (hmoved : u' = u.after n ∨ Ultimate.Works reply (u.after n) u') :
    Presented past left u' ∧ u'.data = u.data ∧ u'.line = u.line ∧ u'.todo = u.todo ∧
      u'.state = u.state := by
  rcases hmoved with rfl | hwork
  · exact ⟨⟨h.accepted, h.asked, h.state, h.filled, h.left, h.executed⟩, rfl, rfl, rfl, rfl⟩
  · rw [hwork.presented h.accepted h.staged]
    exact ⟨⟨h.accepted, h.asked, h.state, h.filled, h.left, h.executed⟩, rfl, rfl, rfl, rfl⟩

/-- A block that comes holds the next byte. -/
theorem OnTheWay.moved (h : OnTheWay past left u)
    (hmoved : u' = u.after n ∨ Ultimate.Works reply (u.after n) u') :
    (OnTheWay past left u' ∧ u' = u.after n) ∨
      (Presented past left u' ∧ u'.data ≠ [] ∧
        ∃ b rest, u.todo = b :: rest ∧ u'.data = b.data) := by
  rcases hmoved with rfl | hwork
  · exact Or.inl ⟨⟨h.state, h.accepted, h.asked, h.more, h.filled, h.left, h.executed⟩, rfl⟩
  · cases hwork with
    | accept busy => exact Bool.noConfusion (h.accepted.symm.trans busy)
    | noticed acc asked => exact Bool.noConfusion (h.asked.symm.trans asked)
    | @stage b rest state accepted asked todo =>
      have htodo : u.todo = b :: rest := todo
      have hleft : left = b.data ++ rest.flatMap Block.data := by
        rw [h.left, htodo]
        rfl
      have hfilled : ∀ b' ∈ b :: rest, b'.data ≠ [] := htodo ▸ h.filled
      exact Or.inr ⟨⟨h.accepted, rfl, rfl, fun b' hb' => hfilled b' (List.mem_cons_of_mem _ hb'),
        hleft, h.executed⟩, hfilled b List.mem_cons_self, b, rest, htodo, rfl⟩

/-! ## What the status shows -/

theorem Presented.bits (h : Presented past left u) : u.status.state1 = true ∧
    (u.status.state0 = true ↔ u.todo ≠ []) ∧ (u.status.dataAv = true ↔ u.data ≠ []) := by
  have hstate := h.state
  refine ⟨h.staged, ?_, ?_⟩
  · cases htodo : u.todo with
    | nil => simp [Ultimate.status, hstate, htodo]
    | cons b rest => simp [Ultimate.status, hstate, htodo]
  · rw [Ultimate.status_dataAv, and_iff_right h.staged]

theorem OnTheWay.bits (h : OnTheWay past left u) :
    u.status.state1 = false ∧ u.status.state0 = true ∧ u.status.dataAv = false := by
  simp [Ultimate.status, Ultimate.staged, h.state]

/-- The bits that `uci_settle_status` compares. -/
def settledBits (b : StatusBits) : UInt8 := b.byte &&& (uciStatDataAv ||| uciStatState)

theorem settledBits_busy {b : StatusBits} (h₁ : b.state1 = false) (h₀ : b.state0 = true)
    (hav : b.dataAv = false) : settledBits b = uciStateBusy := by
  have hbusy : settledBits b = settledBits ⟨false, false, false, true, false, false, false⟩ :=
    (StatusBits.byte_settled _ _).mpr ⟨hav, h₁, h₀⟩
  rw [hbusy]
  decide

theorem settledBits_dataAv (b : StatusBits) :
    settledBits b &&& uciStatDataAv ≠ 0 ↔ b.dataAv = true := by
  rw [settledBits, settled_dataAv, StatusBits.byte_dataAv]

theorem settledBits_state (b : StatusBits) :
    settledBits b &&& uciStatState = b.byte &&& uciStatState := settled_state _

/-- No read of a block that is there is torn. -/
theorem Presented.shown (h : Presented past left u)
    (hmoved : u' = u.after n ∨ Ultimate.Works reply (u.after n) u') {b : StatusBits}
    (htorn : StatusBits.Torn (u.after n).status u'.status b) :
    settledBits b = settledBits u.status := by
  obtain ⟨-, hdata, -, -, hstate⟩ := h.moved hmoved
  have hsame : u'.status.dataAv = u.status.dataAv ∧ u'.status.state1 = u.status.state1 ∧
      u'.status.state0 = u.status.state0 := by
    simp [Ultimate.status, Ultimate.staged, hdata, hstate]
  refine (StatusBits.byte_settled _ _).mpr ⟨?_, ?_, ?_⟩
  · exact htorn.dataAv.elim id fun hb => hb.trans hsame.1
  · exact htorn.state1.elim id fun hb => hb.trans hsame.2.1
  · exact htorn.state0.elim id fun hb => hb.trans hsame.2.2

/-! ## Waiting for the firmware -/

/-- The command waits to be accepted. -/
structure Pushed (past : List Executed) (cmd : List UInt8) (u : Ultimate) : Prop where
  busy : u.cmdBusy = true
  state : u.state = .busy
  command : u.command = cmd
  executed : u.executed = past
  error : u.error = false

/-- The first block on its way holds `k` bytes at least. -/
def Headed (k : Nat) (u : Ultimate) : Prop := ∃ b rest, u.todo = b :: rest ∧ k ≤ b.data.length

/-- A reply of which nothing has been read, `k` bytes of it in its first block at least. -/
def Fresh (k : Nat) (past : List Executed) (left : List UInt8) (u : Ultimate) : Prop :=
  (Presented past left u ∧ k ≤ u.data.length) ∨ (OnTheWay past left u ∧ Headed k u)

variable {k : Nat}

theorem Fresh.moved (h : Fresh k past left u)
    (hmoved : u' = u.after n ∨ Ultimate.Works reply (u.after n) u') :
    (Presented past left u' ∧ k ≤ u'.data.length) ∨
      (OnTheWay past left u' ∧ Headed k u' ∧ u' = u.after n) := by
  rcases h with ⟨hpresented, hlen⟩ | ⟨hway, b, rest, htodo, hlen⟩
  · obtain ⟨hpresented', hdata, -⟩ := hpresented.moved hmoved
    exact Or.inl ⟨hpresented', hdata ▸ hlen⟩
  · rcases hway.moved hmoved with ⟨hway', rfl⟩ | ⟨hpresented, -, b', rest', htodo', hdata⟩
    · exact Or.inr ⟨hway', ⟨b, rest, htodo, hlen⟩, rfl⟩
    · obtain ⟨rfl, -⟩ := List.cons.inj (htodo.symm.trans htodo')
      exact Or.inl ⟨hpresented, hdata ▸ hlen⟩

theorem Fresh.not_busy (h : Fresh k past left u) : u.cmdBusy = false := by
  rcases h with ⟨hpresented, -⟩ | ⟨hway, -⟩
  · exact hpresented.accepted
  · exact hway.accepted

/-- The command has been run, and the reply to it is there or on its way. -/
def Replied (past : List Executed) (cmd : List UInt8) (u : Ultimate) : Prop :=
  u.error = false ∧ ∃ blocks b₀ b₁ payload, Conforming b₀ b₁ payload blocks ∧
    Fresh 2 (past ++ [(cmd, blocks)]) (b₀ :: b₁ :: payload) u

theorem moved_error (hmoved : u' = u.after n ∨ Ultimate.Works reply (u.after n) u')
    (h : u.error = false) : u'.error = false := by
  rcases hmoved with rfl | hwork
  · exact h
  · exact hwork.keeps.error h

theorem Replied.moved {cmd : List UInt8} (h : Replied past cmd u)
    (hmoved : u' = u.after n ∨ Ultimate.Works reply (u.after n) u') : Replied past cmd u' := by
  obtain ⟨herror, blocks, b₀, b₁, payload, hconf, hfresh⟩ := h
  exact ⟨moved_error hmoved herror, blocks, b₀, b₁, payload, hconf,
    (hfresh.moved hmoved).imp id fun h => ⟨h.1, h.2.1⟩⟩

/-- The accept of a command that is answered as a `SOCKET_READ` is. -/
theorem awaits_accept {cmd : List UInt8}
    (hreply : ∀ blocks, reply cmd blocks → ∃ payload, Carries payload blocks) :
    Awaits reply (fun v => v &&& uciStatCmdBusy = 0) (Pushed past cmd) (Replied past cmd)
      Ultimate.acceptTenths := by
  have hnotBusy : ∀ {u : Ultimate}, Replied past cmd u → u.cmdBusy = false := by
    intro u ⟨herror, blocks, b₀, b₁, payload, hconf, h⟩
    exact h.not_busy
  have hwait : ∀ {n : Nat} {u u' : Ultimate}, Pushed past cmd u →
      (u' = u.after n ∨ Ultimate.Works reply (u.after n) u') →
      Replied past cmd u' ∨
        (Pushed past cmd u' ∧ u'.clock + u.acceptTenths ≤ u'.acceptTenths + u.clock) := by
    intro n u u' h hmoved
    have htime : (u.after n).clock + u.acceptTenths ≤ (u.after n).acceptTenths + u.clock := by
      simp only [Ultimate.after, h.busy, if_true]
      omega
    rcases hmoved with rfl | hwork
    · exact Or.inr ⟨⟨h.busy, h.state, h.command, h.executed, h.error⟩, htime⟩
    · cases hwork with
      | @accept blocks busy some answers =>
        obtain ⟨payload, b₀, b₁, hconf⟩ := hreply blocks (h.command ▸ answers)
        have hexecuted : u.executed ++ [(u.command, blocks)] = past ++ [(cmd, blocks)] := by
          rw [h.executed, h.command]
        have hway : OnTheWay (past ++ [(cmd, blocks)]) (b₀ :: b₁ :: payload)
            ((u.after n).accept blocks) :=
          ⟨h.state, rfl, rfl, List.cons_ne_nil _ _, hconf.filled, hconf.whole.symm, hexecuted⟩
        exact Or.inl ⟨h.error, blocks, b₀, b₁, payload, hconf, Or.inr ⟨hway, hconf.first⟩⟩
      | stage _ accepted => exact Bool.noConfusion (h.busy.symm.trans accepted)
      | noticed => exact Or.inr ⟨⟨h.busy, h.state, h.command, h.executed, h.error⟩, htime⟩
  refine ⟨hwait, Replied.moved, fun {n u u' b} h hmoved htorn => ?_,
    fun {n u u' b} h hmoved htorn hdone => ?_⟩
  · have hb : b.cmdBusy = false :=
      htorn.cmdBusy.elim (fun hb => hb.trans (hnotBusy h :))
        fun hb => hb.trans (hnotBusy (h.moved hmoved))
    exact decide_eq_true ((StatusBits.byte_cmdBusy b).mpr hb)
  · have hb := (StatusBits.byte_cmdBusy b).mp (of_decide_eq_true hdone)
    refine (hwait h hmoved).resolve_right fun hpushed => ?_
    rcases htorn.cmdBusy with hold | hnew
    · exact Bool.noConfusion (hb.symm.trans (hold.trans h.busy))
    · exact Bool.noConfusion (hb.symm.trans (hnew.trans hpushed.1.busy))

/-- The staging of a block with `k` bytes at least. -/
theorem awaits_stage (k : Nat) (past : List Executed) (left : List UInt8) :
    Awaits reply (fun v => v &&& uciStatState ≠ uciStateBusy)
      (fun u => OnTheWay past left u ∧ Headed k u)
      (fun u => Presented past left u ∧ k ≤ u.data.length) Ultimate.stageTenths := by
  refine ⟨fun {n u u'} h hmoved => ?_, fun {n u u'} h hmoved => ?_,
    fun {n u u' b} h hmoved htorn => ?_, fun {n u u' b} h hmoved htorn hdone => ?_⟩
  · rcases Fresh.moved (Or.inr h) hmoved with hpresented | ⟨hway, hheaded, rfl⟩
    · exact Or.inl hpresented
    · refine Or.inr ⟨⟨hway, hheaded⟩, ?_⟩
      simp only [Ultimate.after, h.1.asked, if_true]
      omega
  · obtain ⟨hpresented, hdata, -⟩ := h.1.moved hmoved
    exact ⟨hpresented, hdata ▸ h.2⟩
  · have hb : b.state1 = true :=
      htorn.state1.elim (fun hb => hb.trans h.1.bits.1)
        fun hb => hb.trans (h.1.moved hmoved).1.bits.1
    refine decide_eq_true fun hbusy => ?_
    exact Bool.noConfusion (hb.symm.trans ((StatusBits.byte_busy b).mp hbusy).1)
  · refine (Fresh.moved (Or.inr h) hmoved).resolve_right ?_
    intro hwaits
    obtain ⟨-, -, heq⟩ := hwaits
    subst heq
    obtain rfl := htorn.same
    refine of_decide_eq_true hdone ((StatusBits.byte_busy _).mpr ⟨?_, ?_⟩)
    · exact h.1.bits.1
    · exact h.1.bits.2.1

/-! ## Settling -/

/-- A status that is read while a block is there. -/
theorem lda_presented (hD : Implements D reply spec) (hs : D.Punctual spec s.dev)
    (h : Presented past left (spec s.dev)) :
    Achieves (lda D .uciStatus) s fun v s' =>
      v &&& (uciStatDataAv ||| uciStatState) = settledBits (spec s.dev).status ∧ s'.mem = s.mem ∧
      D.Punctual spec s'.dev ∧ Presented past left (spec s'.dev) ∧
      (spec s'.dev).data = (spec s.dev).data ∧ (spec s'.dev).line = (spec s.dev).line ∧
      settledBits (spec s'.dev).status = settledBits (spec s.dev).status := by
  refine (lda_achieves _ s).imp fun v s' _ ⟨hnext, hmem⟩ => ?_
  obtain ⟨n, b, hmoved, htorn, rfl⟩ := (hD.step hnext).torn
  obtain ⟨hpresented, hdata, hline, htodo, hstate⟩ := h.moved hmoved
  refine ⟨h.shown hmoved htorn, hmem, hs.next hnext, hpresented, hdata, hline, ?_⟩
  refine (StatusBits.byte_settled _ _).mpr ?_
  simp [Ultimate.status, Ultimate.staged, hdata, hstate]

/-- A status that is read while a block is on its way. -/
theorem lda_onTheWay (hD : Implements D reply spec) (hs : D.Punctual spec s.dev)
    (h : OnTheWay past left (spec s.dev)) :
    Achieves (lda D .uciStatus) s fun v s' => s'.mem = s.mem ∧ D.Punctual spec s'.dev ∧
      ((OnTheWay past left (spec s'.dev) ∧ v &&& (uciStatDataAv ||| uciStatState) = uciStateBusy) ∨
      (Presented past left (spec s'.dev) ∧ (spec s'.dev).data ≠ [])) := by
  refine (lda_achieves _ s).imp fun v s' _ ⟨hnext, hmem⟩ => ⟨hmem, hs.next hnext, ?_⟩
  obtain ⟨n, b, hmoved, htorn, rfl⟩ := (hD.step hnext).torn
  rcases h.moved hmoved with ⟨hway, heq⟩ | ⟨hpresented, hdata, -⟩
  · rw [heq] at htorn
    obtain rfl := htorn.same
    exact Or.inl ⟨hway, settledBits_busy h.bits.1 h.bits.2.1 h.bits.2.2⟩
  · exact Or.inr ⟨hpresented, hdata⟩

/-- A block that is there settles with the second read, at the latest with the third. -/
theorem settleLoop_presented (hD : Implements D reply spec) (reads : Nat) (prev : UInt8)
    (hs : D.Punctual spec s.dev) (h : Presented past left (spec s.dev)) :
    Achieves (settleLoop D (reads + 2) prev) s fun r s' =>
      r = some (settledBits (spec s'.dev).status) ∧ s'.mem = s.mem ∧ D.Punctual spec s'.dev ∧
      Presented past left (spec s'.dev) ∧ (spec s'.dev).data = (spec s.dev).data := by
  refine (lda_presented hD hs h).bind fun v s₁ ⟨hv, hmem₁, hs₁, h₁, hdata₁, _, hbits₁⟩ =>
    .ite (fun _ => ?_) fun _ => ?_
  · exact .pure _ ⟨congrArg some (hv.trans hbits₁.symm), hmem₁, hs₁, h₁, hdata₁⟩
  refine (lda_presented hD hs₁ h₁).bind fun w s₂ ⟨hw, hmem₂, hs₂, h₂, hdata₂, _, hbits₂⟩ =>
    .ite (fun _ => ?_) fun hne => ?_
  · exact .pure _ ⟨congrArg some (hw.trans hbits₂.symm), hmem₂.trans hmem₁, hs₂, h₂,
      hdata₂.trans hdata₁⟩
  · exact absurd (hw.trans (hbits₁.trans hv.symm)) hne

/-- What `uci_settle_status` finds of a block on its way: it is not there yet, or it has come. -/
theorem uciSettleStatus_onTheWay (hD : Implements D reply spec) (hs : D.Punctual spec s.dev)
    (h : OnTheWay past left (spec s.dev)) :
    Achieves (uciSettleStatus D) s fun r s' => s'.mem = s.mem ∧ D.Punctual spec s'.dev ∧
      ((r = some uciStateBusy ∧ OnTheWay past left (spec s'.dev)) ∨
      (r = some uciStateBusy ∨ r = some (settledBits (spec s'.dev).status)) ∧
        Presented past left (spec s'.dev) ∧ (spec s'.dev).data ≠ []) := by
  refine (lda_onTheWay hD hs h).bind fun v s₁ ⟨hmem₁, hs₁, hcase₁⟩ =>
    .ite (fun hff => ?_) fun _ => ?_
  · exact absurd hff (settled_ne_ff v)
  rcases hcase₁ with ⟨h₁, hv⟩ | ⟨h₁, hdata₁⟩
  · rw [hv]
    refine (lda_onTheWay hD hs₁ h₁).bind fun w s₂ ⟨hmem₂, hs₂, hcase₂⟩ =>
      .ite (fun hagree => ?_) fun hne => ?_
    · rw [hagree]
      refine .pure _ ⟨hmem₂.trans hmem₁, hs₂, ?_⟩
      rcases hcase₂ with ⟨h₂, -⟩ | ⟨h₂, hdata₂⟩
      · exact Or.inl ⟨rfl, h₂⟩
      · exact Or.inr ⟨Or.inl rfl, h₂, hdata₂⟩
    · rcases hcase₂ with ⟨-, hw⟩ | ⟨h₂, hdata₂⟩
      · exact absurd hw hne
      · refine (settleLoop_presented hD 4 _ hs₂ h₂).imp fun r s' _ ⟨hr, hmem, hs', h', hdata⟩ => ?_
        exact ⟨hmem.trans (hmem₂.trans hmem₁), hs', Or.inr ⟨Or.inr hr, h', hdata ▸ hdata₂⟩⟩
  · refine (settleLoop_presented hD 5 _ hs₁ h₁).imp fun r s' _ ⟨hr, hmem, hs', h', hdata⟩ => ?_
    exact ⟨hmem.trans hmem₁, hs', Or.inr ⟨Or.inr hr, h', hdata ▸ hdata₁⟩⟩

/-! ## A block boundary -/

/-- The accept of a Data More block that is drained: the next one is on its way. -/
theorem uciAck_more (hD : Implements D reply spec) (hs : D.Punctual spec s.dev)
    (h : Presented past left (spec s.dev)) (hdata : (spec s.dev).data = []) (hleft : left ≠ []) :
    Achieves (uciAck D) s fun _ s' => s'.mem = s.mem ∧ D.Punctual spec s'.dev ∧
      OnTheWay past left (spec s'.dev) := by
  refine (sta_achieves _ _ s).imp fun _ s' _ ⟨hnext, hmem⟩ => ⟨hmem, hs.next hnext, ?_⟩
  have htodo : (spec s.dev).todo ≠ [] := by
    intro hnil
    refine hleft ?_
    rw [h.left, hdata, hnil]
    rfl
  have hmore : (spec s.dev).state = .dataMore := by
    rw [h.state, if_neg (by simpa using htodo)]
  have hacc : (spec s.dev).dataAcc = false := hs.noticed s.dev .refl hmore hdata
  obtain ⟨n, u₁, hmoved, hwrite⟩ := hD.step hnext
  have hfields : u₁.state = .dataMore ∧ u₁.dataAcc = false ∧ u₁.cmdBusy = false ∧
      u₁.todo = (spec s.dev).todo ∧ u₁.executed = past := by
    rcases hmoved with rfl | hwork
    · exact ⟨hmore, hacc, h.accepted, rfl, h.executed⟩
    · rw [hwork.presented h.accepted h.staged]
      exact ⟨hmore, rfl, h.accepted, rfl, h.executed⟩
  obtain ⟨hstate₁, hacc₁, hbusy₁, htodo₁, hexecuted₁⟩ := hfields
  have hnextData : spec s'.dev =
      { u₁ with
        state := .busy, data := [], line := [], dataAcc := true, asked := true,
        stageTenths := 0 } := by
    rw [hwrite]
    show u₁.nextData = _
    simp [Ultimate.nextData, hstate₁, hacc₁]
  rw [hnextData]
  refine ⟨rfl, hbusy₁, rfl, hleft, htodo₁ ▸ h.filled, ?_, hexecuted₁⟩
  show left = u₁.todo.flatMap Block.data
  rw [h.left, hdata, htodo₁]
  rfl

theorem OnTheWay.headed (h : OnTheWay past left u) : Headed 1 u := by
  have hsome : u.todo ≠ [] := by
    intro hnil
    refine h.more ?_
    rw [h.left, hnil]
    rfl
  obtain ⟨b, rest, htodo⟩ := List.exists_cons_of_ne_nil hsome
  refine ⟨b, rest, htodo, List.length_pos_iff.mpr (h.filled b ?_)⟩
  rw [htodo]
  exact List.mem_cons_self

/-- `uci_wait_reply_staged`, when the firmware is about to stage a block or has done so. -/
theorem uciWaitReplyStaged_achieves (hD : Implements D reply spec) (hs : D.Punctual spec s.dev)
    (h : Fresh k past left (spec s.dev)) :
    Achieves (uciWaitReplyStaged D) s fun c s' => c = false ∧
      (Presented past left (spec s'.dev) ∧ k ≤ (spec s'.dev).data.length) ∧ s'.mem = s.mem ∧
      D.Punctual spec s'.dev := by
  refine statusWait_achieves (awaits_stage k past left) hD (fun d hd => hd.stageTenths d .refl)
    (fun d hd => ?_) hs h
  refine Subrelation.accessible ?_ (hd.stages d .refl)
  intro d' d'' hlooking
  exact ⟨hlooking.1.1.asked, hlooking.2⟩

/-- The passes that can still go by without a byte. -/
def boundaryWeight (u : Ultimate) : Nat := if u.staged then if u.data = [] then 2 else 0 else 1

theorem Presented.weight (h : Presented past left u) :
    boundaryWeight u = if u.data = [] then 2 else 0 := if_pos h.staged

theorem OnTheWay.weight (h : OnTheWay past left u) : boundaryWeight u = 1 := by
  have hstaged : ¬ u.staged = true := by simp [Ultimate.staged, h.state]
  exact if_neg hstaged

/-- **A block boundary**: nothing is read, and the next byte comes closer. -/
theorem blockEnd_achieves (hD : Implements D reply spec) (hs : D.Punctual spec s.dev) (o : Operand)
    (hrem : s.mem.uciPollRem ≠ 0) (hleft : left ≠ []) (h : Coming past left (spec s.dev)) :
    Achieves (blockEnd D o) s fun r s' => r = .inl o ∧ s'.mem = s.mem ∧ D.Punctual spec s'.dev ∧
      Coming past left (spec s'.dev) ∧ (boundaryWeight (spec s'.dev) < boundaryWeight (spec s.dev) ∨
        boundaryWeight (spec s'.dev) = 0) := by
  refine (cells_achieves s).bind fun m s₀ ⟨hm, hs₀⟩ => ?_
  subst hm
  subst hs₀
  refine .ite (fun hzero => absurd hzero hrem) fun _ => ?_
  -- A block that has come with a byte: on with it.
  have harrived : ∀ {t : State δ}, Presented past left (spec t.dev) → (spec t.dev).data ≠ [] →
      Coming past left (spec t.dev) ∧ (boundaryWeight (spec t.dev) < boundaryWeight (spec s.dev) ∨
        boundaryWeight (spec t.dev) = 0) := by
    intro t ht hdata
    refine ⟨Or.inl ht, Or.inr ?_⟩
    rw [ht.weight, if_neg hdata]
  -- `@byte_wait`: the wait for a block that was on its way.
  have hwaited : ∀ {t : State δ}, t.mem = s.mem → D.Punctual spec t.dev →
      Fresh 1 past left (spec t.dev) →
      Achieves (uciWaitReplyStaged D >>= fun c =>
        if c = true then Pure.pure (Sum.inr true : Operand ⊕ Bool) else Pure.pure (.inl o)) t
        fun r s' => r = .inl o ∧ s'.mem = s.mem ∧ D.Punctual spec s'.dev ∧
          Coming past left (spec s'.dev) ∧
          (boundaryWeight (spec s'.dev) < boundaryWeight (spec s.dev) ∨
            boundaryWeight (spec s'.dev) = 0) := by
    intro t hmem ht hfresh
    refine (uciWaitReplyStaged_achieves hD ht hfresh).bind
      fun c s' ⟨hc, ⟨h', hlen⟩, hmem', hs'⟩ => ?_
    subst hc
    exact .ite (fun hcontra => Bool.noConfusion hcontra) fun _ => .pure _
      ⟨rfl, hmem'.trans hmem, hs', harrived h' (List.length_pos_iff.mp hlen)⟩
  rcases h with h | h
  · -- The block was there all along.
    refine (settleLoop_presented hD 6 _ hs h).bind fun r s₁ ⟨hr, hmem₁, hs₁, h₁, hdata₁⟩ => ?_
    subst hr
    refine .ite (fun hav => ?_) fun hav => ?_
    · rw [settledBits_dataAv, h₁.bits.2.2] at hav
      exact .pure _ ⟨rfl, hmem₁, hs₁, harrived h₁ hav⟩
    · rw [settledBits_dataAv, h₁.bits.2.2, not_not] at hav
      have htodo : (spec s₁.dev).todo ≠ [] := by
        intro hnil
        refine hleft ?_
        rw [h₁.left, hav, hnil]
        rfl
      have hmore : settledBits (spec s₁.dev).status &&& uciStatState = uciStateDataMore := by
        rw [settledBits_state, StatusBits.byte_more]
        exact ⟨h₁.bits.1, h₁.bits.2.1.mpr htodo⟩
      refine .ite (fun _ => ?_) fun hnot => absurd hmore hnot
      refine (uciAck_more hD hs₁ h₁ hav hleft).bind fun u s₂ ⟨hmem₂, hs₂, h₂⟩ => .pure _
        ⟨rfl, hmem₂.trans hmem₁, hs₂, Or.inr h₂, Or.inl ?_⟩
      rw [h₂.weight, h.weight, ← hdata₁, if_pos hav]
      decide
  · -- The block was on its way.
    refine (uciSettleStatus_onTheWay hD hs h).bind fun r s₁ ⟨hmem₁, hs₁, hcase⟩ => ?_
    rcases hcase with ⟨hr, h₁⟩ | ⟨hr, h₁, hdata₁⟩
    · subst hr
      exact .ite (fun hav => absurd rfl hav) fun _ => .ite (fun hmore => absurd hmore (by decide))
        fun _ => .ite (fun _ => hwaited hmem₁ hs₁ (Or.inr ⟨h₁, h₁.headed⟩))
          fun hnot => absurd rfl hnot
    · have hlen : 1 ≤ (spec s₁.dev).data.length := List.length_pos_iff.mpr hdata₁
      rcases hr with hr | hr
      · subst hr
        exact .ite (fun hav => absurd rfl hav) fun _ => .ite (fun hmore => absurd hmore (by decide))
          fun _ => .ite (fun _ => hwaited hmem₁ hs₁ (Or.inl ⟨h₁, hlen⟩)) fun hnot => absurd rfl hnot
      · subst hr
        have hav : settledBits (spec s₁.dev).status &&& uciStatDataAv ≠ 0 := by
          rw [settledBits_dataAv, h₁.bits.2.2]
          exact hdata₁
        exact .ite (fun _ => .pure _ ⟨rfl, hmem₁, hs₁, harrived h₁ hdata₁⟩)
          fun hnot => absurd hav hnot

/-! ## Taking bytes -/

/-- A byte of the block that is there. -/
theorem lda_takes (hD : Implements D reply spec) (hs : D.Punctual spec s.dev) {b : UInt8}
    (h : Presented past (b :: left) (spec s.dev)) (hdata : (spec s.dev).data ≠ []) :
    Achieves (lda D .uciRespData) s fun v s' => v = b ∧ s'.mem = s.mem ∧ D.Punctual spec s'.dev ∧
      Presented past left (spec s'.dev) ∧ (spec s'.dev).data = (spec s.dev).data.tail := by
  refine (lda_achieves _ s).imp fun v s' _ ⟨hnext, hmem⟩ => ?_
  obtain ⟨n, u₁, hmoved, hreads, hread⟩ := hD.step hnext
  obtain ⟨h₁, hdata₁, -, -, -⟩ := h.moved hmoved
  obtain ⟨c, rest, hcons⟩ := List.exists_cons_of_ne_nil hdata
  have hcons₁ : u₁.data = c :: rest := hdata₁.trans hcons
  have hleft := h₁.left
  rw [hcons₁] at hleft
  obtain ⟨rfl, hrest⟩ := List.cons.inj hleft
  have htaken : u₁.read .uciRespData = (b, { u₁ with data := rest }) := by
    simp [Ultimate.read, h₁.staged, hcons₁]
  refine ⟨?_, hmem, hs.next hnext, ?_, ?_⟩
  · have hv : v = (u₁.read .uciRespData).1 := hreads
    rw [hv, htaken]
  · rw [hread, htaken]
    exact ⟨h₁.accepted, h₁.asked, h₁.state, h₁.filled, hrest, h₁.executed⟩
  · rw [hread, htaken, hcons]
    rfl

/-- One byte of the header, and the rest of it. -/
theorem hdrLoop_takes (hD : Implements D reply spec) (hs : D.Punctual spec s.dev) {b : UInt8}
    {todo y : Nat} (h : Presented past (b :: left) (spec s.dev)) (hdata : (spec s.dev).data ≠ [])
    {Q : Bool → State δ → Prop}
    (hrest : ∀ s', s'.mem = { s.mem with uciReadHdr := put s.mem.uciReadHdr y b } →
      D.Punctual spec s'.dev → Presented past left (spec s'.dev) →
      (spec s'.dev).data = (spec s.dev).data.tail → Achieves (hdrLoop D todo (y + 1)) s' Q) :
    Achieves (hdrLoop D (todo + 1) y) s Q := by
  refine (lda_presented hD hs h).bind fun v s₁ ⟨hv, hmem₁, hs₁, h₁, hdata₁, _, _⟩ => ?_
  have hav : v &&& uciStatDataAv ≠ 0 := by
    rw [← settled_dataAv, hv, settledBits_dataAv, h.bits.2.2]
    exact hdata
  refine .ite (fun hzero => absurd hzero hav) fun _ => ?_
  refine (lda_takes hD hs₁ h₁ (hdata₁ ▸ hdata)).bind fun c s₂ ⟨hc, hmem₂, hs₂, h₂, hdata₂⟩ => ?_
  refine (store_achieves _ s₂).bind fun u s₃ ⟨hdev₃, hmem₃⟩ => ?_
  refine hrest s₃ ?_ (hdev₃ ▸ hs₂) (hdev₃ ▸ h₂) ?_
  · rw [hmem₃, hmem₂, hmem₁, hc]
  · rw [hdev₃, hdata₂, hdata₁]

/-- The two bytes of the header, from a block that holds both. -/
theorem hdrLoop_achieves (hD : Implements D reply spec) (hs : D.Punctual spec s.dev) {b₀ b₁ : UInt8}
    (h : Presented past (b₀ :: b₁ :: left) (spec s.dev)) (hlen : 2 ≤ (spec s.dev).data.length) :
    Achieves (hdrLoop D 2 0) s fun c s' => c = true ∧ D.Punctual spec s'.dev ∧
      Presented past left (spec s'.dev) ∧
      s'.mem = { s.mem with uciReadHdr := put (put s.mem.uciReadHdr 0 b₀) 1 b₁ } := by
  refine hdrLoop_takes hD hs h (List.length_pos_iff.mp (by omega)) fun s₁ hmem₁ hs₁ h₁ hdata₁ => ?_
  have hlen₁ : 1 ≤ (spec s₁.dev).data.length := by
    rw [hdata₁, List.length_tail]
    omega
  refine hdrLoop_takes hD hs₁ h₁ (List.length_pos_iff.mp hlen₁) fun s₂ hmem₂ hs₂ h₂ _ => ?_
  exact .pure _ ⟨rfl, hs₂, h₂, by rw [hmem₂, hmem₁]⟩

/-! ## The receive loop -/

/-- Where the receive loop is: what it has stored and what is still to come make up the payload. -/
structure Receiving (D : Device δ) (spec : δ → Ultimate) (buf : Nat)
    (past : List Executed) (payload : List UInt8) (m : UciMem)
    (o : Operand) (got left : List UInt8) (t : State δ) : Prop where
  punctual : D.Punctual spec t.dev
  coming : Coming past left (spec t.dev)
  filling : Filling buf payload.length m t.mem o got
  whole : got ++ left = payload

theorem Receiving.rem {buf : Nat} {payload got : List UInt8} {m : UciMem} {o : Operand}
    (h : Receiving D spec buf past payload m o got left s) : s.mem.uciPollRem = left.length := by
  have hrem := h.filling.rem
  rw [← h.whole, List.length_append] at hrem
  omega

/-- **A pass of the receive loop** stores the next byte or comes closer to it. -/
theorem byteLoop_achieves (hD : Implements D reply spec) {buf : Nat} {payload got : List UInt8}
    {m : UciMem} {o : Operand} (hlen : payload.length ≤ uciReadChunkMax)
    (h : Receiving D spec buf past payload m o got left s) :
    Achieves (byteLoop D o) s fun r s' =>
      r.elim (fun o' => ∃ got' left', Receiving D spec buf past payload m o' got' left' s' ∧
        (left'.length < left.length ∨ left' = left ∧
          boundaryWeight (spec s'.dev) < boundaryWeight (spec s.dev)))
        fun c => c = false ∧ Receiving D spec buf past payload m o payload [] s' := by
  have hrem := h.rem
  refine (cells_achieves s).bind fun _ _ ⟨hm, hs₀⟩ => ?_
  subst hm
  subst hs₀
  refine .ite (fun hzero => .pure _ ⟨rfl, ?_⟩) fun hne => ?_
  · obtain rfl : left = [] := List.length_eq_zero_iff.mp (hrem.symm.trans hzero)
    have hgot : got = payload := (List.append_nil got).symm.trans h.whole
    rwa [hgot] at h
  have hleft : left ≠ [] := by
    rintro rfl
    exact hne hrem
  obtain ⟨b, rest, rfl⟩ := List.exists_cons_of_ne_nil hleft
  -- A boundary, from the state after the status was read.
  have hboundary : ∀ {t : State δ}, t.mem = s.mem → D.Punctual spec t.dev →
      Coming past (b :: rest) (spec t.dev) →
      boundaryWeight (spec t.dev) ≤ boundaryWeight (spec s.dev) ∧
        0 < boundaryWeight (spec s.dev) →
      Achieves (blockEnd D o) t fun r s' =>
        r.elim (fun o' => ∃ got' left', Receiving D spec buf past payload m o' got' left' s' ∧
          (left'.length < (b :: rest).length ∨ left' = b :: rest ∧
            boundaryWeight (spec s'.dev) < boundaryWeight (spec s.dev)))
          fun c => c = false ∧ Receiving D spec buf past payload m o payload [] s' := by
    intro t hmem ht hcoming hweight
    refine (blockEnd_achieves hD ht o (hmem ▸ hne) hleft hcoming).imp
      fun r s' _ ⟨hr, hmem', hs', hcoming', hlt⟩ => ?_
    subst hr
    refine ⟨got, b :: rest, ⟨hs', hcoming', ?_, h.whole⟩, Or.inr ⟨rfl, ?_⟩⟩
    · rw [hmem', hmem]
      exact h.filling
    · omega
  -- A byte, from the state after it was announced.
  have htake : ∀ {t : State δ}, t.mem = s.mem → D.Punctual spec t.dev →
      Presented past (b :: rest) (spec t.dev) → (spec t.dev).data ≠ [] →
      Achieves (do
        let b ← lda D .uciRespData
        store (writeRam o.addr b)
        store fun m => { m with uciPollRem := m.uciPollRem - 1 }
        Pure.pure (.inl o.next) : Prog (State δ) (Operand ⊕ Bool)) t fun r s' =>
        r.elim (fun o' => ∃ got' left', Receiving D spec buf past payload m o' got' left' s' ∧
          (left'.length < (b :: rest).length ∨ left' = b :: rest ∧
            boundaryWeight (spec s'.dev) < boundaryWeight (spec s.dev)))
          fun c => c = false ∧ Receiving D spec buf past payload m o payload [] s' := by
    intro t hmem ht hpresented hdata
    refine (lda_takes hD ht hpresented hdata).bind fun c s₁ ⟨hc, hmem₁, hs₁, h₁, _⟩ => ?_
    refine (store_achieves _ s₁).bind fun u s₂ ⟨hdev₂, hmem₂⟩ => ?_
    refine (store_achieves _ s₂).bind fun u s₃ ⟨hdev₃, hmem₃⟩ => .pure _ ?_
    have hdev : s₃.dev = s₁.dev := hdev₃.trans hdev₂
    refine ⟨got ++ [b], rest, ⟨hdev ▸ hs₁, Or.inl (hdev ▸ h₁), ?_, ?_⟩, Or.inl (Nat.lt_succ_self _)⟩
    · refine h.filling.take hlen hne ?_
      rw [hmem₃, hmem₂, hmem₁, hmem, hc]
      rfl
    · rw [List.append_assoc]
      exact h.whole
  rcases h.coming with hpresented | hway
  · refine (lda_presented hD h.punctual hpresented).bind
      fun v s₁ ⟨hv, hmem₁, hs₁, h₁, hdata₁, _, _⟩ => ?_
    have hav : v &&& uciStatDataAv ≠ 0 ↔ (spec s.dev).data ≠ [] := by
      rw [← settled_dataAv, hv, settledBits_dataAv, hpresented.bits.2.2]
    refine .ite (fun hzero => ?_) fun hone => ?_
    · have hnil : (spec s.dev).data = [] := not_not.mp (mt hav.mpr (not_not.mpr hzero))
      refine hboundary hmem₁ hs₁ (Or.inl h₁) ?_
      rw [hpresented.weight, h₁.weight, hdata₁, if_pos hnil]
      decide
    · exact htake hmem₁ hs₁ h₁ (hdata₁ ▸ hav.mp hone)
  · refine (lda_achieves _ s).bind fun v s₁ ⟨hnext, hmem₁⟩ => ?_
    have hs₁ := h.punctual.next hnext
    obtain ⟨n, bits, hmoved, htorn, rfl⟩ := (hD.step hnext).torn
    rcases hway.moved hmoved with ⟨hway₁, heq⟩ | ⟨h₁, hdata₁, -⟩
    · refine .ite (fun _ => hboundary hmem₁ hs₁ (Or.inr hway₁) ?_) fun hone => ?_
      · rw [hway₁.weight, hway.weight]
        decide
      · have hno : ((spec s.dev).after n).status.dataAv = false := hway.bits.2.2
        rw [heq] at htorn
        obtain rfl := htorn.same
        exact absurd ((StatusBits.byte_dataAv _).mp hone) (by simp [hno])
    · refine .ite (fun _ => hboundary hmem₁ hs₁ (Or.inl h₁) ?_) fun _ => htake hmem₁ hs₁ h₁ hdata₁
      rw [h₁.weight, if_neg hdata₁, hway.weight]
      decide

theorem boundaryWeight_le (u : Ultimate) : boundaryWeight u ≤ 2 := by
  unfold boundaryWeight
  split_ifs <;> decide

/-- Nothing is on its way when nothing is left. -/
theorem Coming.presented (h : Coming past [] u) : Presented past [] u :=
  h.resolve_right fun hway => hway.more rfl

/-- **The receive loop** takes the payload whole. -/
theorem byteLoops_achieve (hD : Implements D reply spec) {buf : Nat} {payload : List UInt8}
    {m : UciMem} (hlen : payload.length ≤ uciReadChunkMax)
    (h : Receiving D spec buf past payload m ⟨buf, 0⟩ [] payload s) :
    Achieves (Prog.loop (byteLoop D) ⟨buf, 0⟩) s fun c s' =>
      c = false ∧ ∃ o, Receiving D spec buf past payload m o payload [] s' := by
  have hwf : WellFounded (InvImage (· < ·) fun x : Operand × State δ =>
      3 * x.2.mem.uciPollRem + boundaryWeight (spec x.2.dev)) := InvImage.wf _ Nat.lt_wfRel.wf
  refine Achieves.loop
    (I := fun o t => ∃ got left, Receiving D spec buf past payload m o got left t) (fun o t ⟨got, left, ht⟩ => ?_) (hwf.apply _) ⟨[], payload, h⟩
  refine (byteLoop_achieves hD hlen ht).imp fun r t' _ hr => ?_
  cases r with
  | inl o' =>
    obtain ⟨got', left', ht', hcloser⟩ := hr
    refine ⟨⟨got', left', ht'⟩, ?_⟩
    have hweight := boundaryWeight_le (spec t'.dev)
    show 3 * t'.mem.uciPollRem + boundaryWeight (spec t'.dev) <
      3 * t.mem.uciPollRem + boundaryWeight (spec t.dev)
    rw [ht.rem, ht'.rem]
    rcases hcloser with hshorter | ⟨rfl, hlower⟩ <;> omega
  | inr c => exact ⟨hr.1, o, hr.2⟩

end C64WireGuard.Uci
