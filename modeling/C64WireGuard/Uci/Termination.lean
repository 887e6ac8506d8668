import C64WireGuard.Uci.Clock

/-!
# The adapter's routines end

On a device whose clock keeps ticking, bring-up, address lookup, sending and closing come back,
whatever the other registers read: each routine is total because its waits are (`boundedWait_total`),
and its loops count something down.
-/

namespace C64WireGuard.Uci

open Bytes

variable {δ α : Type} {D : Device δ}

/-! ## The helpers -/

theorem idlePoll_total : Total (polling D) (idlePoll D) := by
  refine (Total.lda fun v => ?_).bind fun status => .ite ?_ (.ite ?_ (.pure _))
  · exact id
  · exact (Total.lda fun _ => id).bind fun _ => .ite (.pure _) (.pure _)
  · exact (Total.sta id).bind fun _ => .pure _

theorem statusPoll_total (done : UInt8 → Bool) : Total (polling D) (statusPoll D done) :=
  (Total.lda fun _ => id).bind fun _ => .ite (.pure _) (.pure _)

theorem drainPoll_total (available : UInt8) {r : ReadReg} (take : UInt8 → UciMem → UciMem)
    (hr : ∀ v, ¬ (Access.read r v).Tenths) : Total (polling D) (drainPoll D available r take) :=
  (Total.lda fun _ => id).bind fun _ => .ite (.pure _)
    ((Total.lda hr).bind fun _ => (Total.store _).bind fun _ => .pure _)

theorem waitTimeout_total : Total (ticking D) waitTimeout :=
  (Total.store _).bind fun _ => .pure _

theorem statusWait_total (budget : Nat) (done : UInt8 → Bool) :
    Total (ticking D) (statusWait D budget done) :=
  (boundedWait_total (statusPoll_total done)).bind fun r =>
    match r with
    | some () => .pure _
    | none => waitTimeout_total

theorem sta_total (r : WriteReg) (v : UInt8) : Total (ticking D) (sta D r v) := .sta trivial

theorem lda_total (r : ReadReg) : Total (ticking D) (lda D r) := .lda fun _ => trivial

theorem setLastError_total (e : UInt8) : Total (ticking D) (setLastError e) := .store _

theorem uciWaitIdle_total : Total (ticking D) (uciWaitIdle D) :=
  (boundedWait_total idlePoll_total).bind fun r =>
    match r with
    | some _ => .ite (.pure _) ((sta_total _ _).bind fun _ => .pure _)
    | none => waitTimeout_total

theorem uciPushWait_total : Total (ticking D) (uciPushWait D) :=
  (sta_total _ _).bind fun _ => statusWait_total _ _

theorem uciCheckErr_total : Total (ticking D) (uciCheckErr D) :=
  (lda_total _).bind fun _ => .ite (.pure _) ((sta_total _ _).bind fun _ => .pure _)

theorem rdLoop_total (max : Nat) (dst : Nat → UInt8 → UciMem → UciMem) (y : Nat) :
    Total (ticking D) (rdLoop D max dst y) := by
  refine .ite (.pure _) ((boundedWait_total (statusPoll_total _)).bind fun r => ?_)
  cases r with
  | none => exact .pure _
  | some u => exact (lda_total _).bind fun _ => (Total.store _).bind fun _ => .pure _

theorem uciReadRespBytes_total (max : Nat) (dst : Nat → UInt8 → UciMem → UciMem) :
    Total (ticking D) (uciReadRespBytes D max dst) := by
  refine (Total.countUp max (rdLoop_total max dst) ?_ 0).bind fun _ => .store _
  intro y s j s' h
  simp only [rdLoop, Prog.returns_bind, Prog.returns_ite, Prog.returns_pure] at h
  rcases h with ⟨-, hcontra, -⟩ | ⟨hlt, r, s₁, -, h⟩
  · cases hcontra
  · cases r with
    | none => cases (Prog.returns_pure.mp h).1
    | some u =>
      simp only [Prog.returns_bind, Prog.returns_pure, Sum.inl.injEq] at h
      obtain ⟨b, s₂, -, u', s₃, -, rfl, -⟩ := h
      omega

theorem uciDrainResp_total : Total (ticking D) (uciDrainResp D) :=
  (boundedWait_total (drainPoll_total _ _ fun _ => id)).bind fun r =>
    match r with
    | some () => .pure _
    | none => waitTimeout_total

theorem uciDrainStatus_total : Total (ticking D) (uciDrainStatus D) :=
  (Total.store _).bind fun _ => (boundedWait_total (drainPoll_total _ _ fun _ => id)).bind fun r =>
    match r with
    | some () => (Total.store _).bind fun _ => .pure _
    | none => waitTimeout_total.bind fun _ => (Total.store _).bind fun _ => .pure _

theorem drainAck_total : Total (ticking D) (drainAck D) :=
  uciDrainResp_total.bind fun _ => .ite (.pure _) (uciDrainStatus_total.bind fun _ =>
    .ite (.pure _) ((sta_total _ _).bind fun _ => .pure _))

theorem drainAckAlways_total : Total (ticking D) (drainAckAlways D) :=
  uciDrainResp_total.bind fun _ => uciDrainStatus_total.bind fun _ => sta_total _ _

/-! ## Closing and opening -/

theorem closeWedged_total : Total (ticking D) netUdpClose.closeWedged :=
  (Total.store _).bind fun _ => .pure _

theorem netUdpClose_total : Total (ticking D) (netUdpClose D) :=
  Total.cells.bind fun _ => .ite (.pure _) (uciWaitIdle_total.bind fun _ => .ite closeWedged_total
    ((sta_total _ _).bind fun _ => (sta_total _ _).bind fun _ => Total.cells.bind fun _ =>
      (sta_total _ _).bind fun _ => uciPushWait_total.bind fun _ => .ite closeWedged_total
        (uciCheckErr_total.bind fun _ => (statusWait_total _ _).bind fun _ =>
          .ite closeWedged_total (drainAck_total.bind fun _ => .ite closeWedged_total
            ((Total.store _).bind fun _ => .ite ((setLastError_total _).bind fun _ => .pure _)
              (.pure _))))))

theorem pushByteAsAscii_total (b : UInt8) : Total (ticking D) (pushByteAsAscii D b) :=
  (Total.when (sta_total _ _)).bind fun _ => (Total.when (sta_total _ _)).bind fun _ =>
    sta_total _ _

theorem putEndpoint_total (dest : Endpoint) : Total (ticking D) (putEndpoint D dest) :=
  (sta_total _ _).bind fun _ => (sta_total _ _).bind fun _ =>
    (pushByteAsAscii_total _).bind fun _ => (sta_total _ _).bind fun _ =>
      (pushByteAsAscii_total _).bind fun _ => (sta_total _ _).bind fun _ =>
        (pushByteAsAscii_total _).bind fun _ => (sta_total _ _).bind fun _ =>
          (pushByteAsAscii_total _).bind fun _ => sta_total _ _

theorem readSocketId_total : Total (ticking D) (readSocketId D) :=
  (Total.store _).bind fun _ => (uciReadRespBytes_total _ _).bind fun _ =>
    drainAckAlways_total.bind fun _ => Total.cells.bind fun _ =>
      .ite ((setLastError_total _).bind fun _ => .pure _) (.pure _)

theorem uciUdpConnect_total : Total (ticking D) (uciUdpConnect D) :=
  uciWaitIdle_total.bind fun _ => .ite (.pure _) ((sta_total _ _).bind fun _ =>
    (sta_total _ _).bind fun _ => Total.cells.bind fun _ => (putEndpoint_total _).bind fun _ =>
      uciPushWait_total.bind fun _ => .ite (.pure _) (uciCheckErr_total.bind fun _ =>
        .ite ((setLastError_total _).bind fun _ => drainAckAlways_total.bind fun _ => .pure _)
          ((statusWait_total _ _).bind fun _ => .ite (.pure _) (uciDrainStatus_total.bind fun _ =>
            Total.cells.bind fun _ => .ite ((setLastError_total _).bind fun _ =>
              uciDrainResp_total.bind fun _ => (sta_total _ _).bind fun _ => .pure _)
              readSocketId_total))))

/-! ## Bring-up -/

theorem tsLoop_total (first : UInt8) (polls : Nat) : Total (ticking D) (tsLoop D first polls) := by
  induction polls with
  | zero => exact (Total.store _).bind fun _ => .pure _
  | succ polls ih => exact readTenths_total.bind fun _ => .ite (.pure _) ih

theorem uciTodStart_total : Total (ticking D) (uciTodStart D) :=
  (lda_total _).bind fun _ => (sta_total _ _).bind fun _ => (sta_total _ _).bind fun _ =>
    (sta_total _ _).bind fun _ => (sta_total _ _).bind fun _ => (sta_total _ _).bind fun _ =>
      readTenths_total.bind fun _ => tsLoop_total _ _

theorem netInit_total : Total (ticking D) (netInit D) :=
  (lda_total _).bind fun _ => .ite ((setLastError_total _).bind fun _ => .pure _)
    (uciTodStart_total.bind fun _ => .ite (.pure _) ((sta_total _ _).bind fun _ =>
      Total.cells.bind fun _ => (Total.when (netUdpClose_total.bind fun _ => .pure _)).bind fun _ =>
        (Total.store _).bind fun _ => .pure _))

theorem readResp_total (max : Nat) : Total (ticking D) (readResp D max) :=
  (uciReadRespBytes_total _ _).bind fun _ => drainAck_total

theorem nextIface_total (n idx : Nat) : Total (ticking D) (nextIface D n idx) :=
  uciWaitIdle_total.bind fun _ => .ite (.pure _) ((sta_total _ _).bind fun _ =>
    (sta_total _ _).bind fun _ => (sta_total _ _).bind fun _ => uciPushWait_total.bind fun _ =>
      .ite (.pure _) (uciCheckErr_total.bind fun _ =>
        .ite (drainAck_total.bind fun _ => .ite (.pure _) (.pure _))
          ((readResp_total _).bind fun _ => .ite (.pure _) (Total.cells.bind fun _ =>
            .ite (.pure _) ((Total.store _).bind fun _ => Total.cells.bind fun _ =>
              .ite ((setLastError_total _).bind fun _ => .pure _)
                ((setLastError_total _).bind fun _ => .pure _))))))

theorem advance_eq_inl {n idx j : Nat} (h : .inl j = advance n idx) : idx + 1 < n ∧ j = idx + 1 := by
  unfold advance at h
  split at h
  · cases h
    exact ⟨‹_›, rfl⟩
  · cases h

theorem advance_eq_inr {n idx : Nat} {c : Bool} (h : .inr c = advance n idx) :
    n ≤ idx + 1 ∧ c = true := by
  unfold advance at h
  split at h
  · cases h
  · cases h
    exact ⟨Nat.le_of_not_lt ‹_›, rfl⟩

/-- The address loop goes on with the next interface only. -/
theorem nextIface_next {n idx j : Nat} {s s' : State δ}
    (h : (nextIface D n idx).Returns s (.inl j) s') : idx < n ∧ idx < j := by
  have hadvance : ∀ {j}, Sum.inl j = advance n idx → idx < n ∧ idx < j := by
    intro j hj
    obtain ⟨hlt, rfl⟩ := advance_eq_inl hj
    omega
  simp only [nextIface, Prog.returns_bind, Prog.returns_ite, Prog.returns_pure, reduceCtorEq,
    false_and, and_false, false_or] at h
  obtain ⟨c₁, s₁, -, -, u₂, s₂, -, u₃, s₃, -, u₄, s₄, -, c₅, s₅, -, -, c₆, s₆, -, h⟩ := h
  rcases h with ⟨-, c₇, s₇, -, -, hj, -⟩ | ⟨-, c₇, s₇, -, -, m, s₈, -, h⟩
  · exact hadvance hj
  rcases h with ⟨-, hj, -⟩ | ⟨-, u₉, s₉, -, m', s₁₀, -, h⟩
  · exact hadvance hj
  obtain ⟨-, u₁₁, s₁₁, -, hcontra⟩ | ⟨-, u₁₁, s₁₁, -, hj, -⟩ := h
  exact hadvance hj

theorem netDhcpAcquire_total : Total (ticking D) (netDhcpAcquire D) :=
  (Total.store _).bind fun _ => uciWaitIdle_total.bind fun _ => .ite (.pure _)
    ((sta_total _ _).bind fun _ => (sta_total _ _).bind fun _ => uciPushWait_total.bind fun _ =>
      .ite (.pure _) (uciCheckErr_total.bind fun _ => .ite (drainAck_total.bind fun _ => .pure _)
        ((readResp_total _).bind fun _ => .ite (.pure _) (Total.cells.bind fun _ =>
          .ite (.pure _) (.ite (.pure _)
            (Total.countUp _ (nextIface_total _) (fun _ _ _ _ h => nextIface_next h) 0))))))

/-! ## Sending -/

theorem store_ends (f : UciMem → UciMem) (s : State δ) : (store f).Ends s := .act _ s

theorem cells_ends (s : State δ) : cells.Ends s := .act _ s

theorem bodyLoop_body_total (o : Operand) : Total (ticking D) (bodyLoop D o) :=
  Total.cells.bind fun _ => .ite (.pure _) ((sta_total _ _).bind fun _ =>
    (Total.store _).bind fun _ => .pure _)

/-- The body of a write counts `uci_chunk_len` down. -/
theorem bodyLoop_total (o : Operand) : Total (ticking D) (Prog.loop (bodyLoop D) o) where
  ends s hs := by
    refine Prog.Ends.loop (I := fun (_ : Operand) (t : State δ) => D.Ticks t.dev)
      (r := InvImage (· < ·) fun x => x.2.mem.uciChunkLen)
      (fun o t ht => (bodyLoop_body_total (D := D) o).ends t ht) ?_
      ((InvImage.wf _ Nat.lt_wfRel.wf).apply _) hs
    intro o t o' t' ht hround
    refine ⟨(ticking D).closed ht ((bodyLoop_body_total o).touches t _ t' hround), ?_⟩
    simp only [bodyLoop, Prog.returns_bind, Prog.returns_ite, Prog.returns_pure] at hround
    obtain ⟨m, t₁, hcells, hround⟩ := hround
    obtain ⟨rfl, rfl⟩ := cells_spec hcells
    rcases hround with ⟨-, hcontra, -⟩ | ⟨hne, u₁, t₂, hsta, u₂, t₃, hput, -, rfl⟩
    · cases hcontra
    · obtain ⟨-, hmem₂⟩ := sta_spec hsta
      obtain ⟨-, hmem₃, -⟩ := store_spec hput
      show t'.mem.uciChunkLen < t.mem.uciChunkLen
      rw [hmem₃, hmem₂]
      exact Nat.sub_lt (Nat.pos_of_ne_zero hne) Nat.one_pos
  touches := .loop (fun o => (bodyLoop_body_total o).touches) o

theorem failWith_total (e : UInt8) : Total (ticking D) (failWith e) :=
  (setLastError_total e).bind fun _ => .pure _

theorem writeReply_total {fail : UInt8 → Prog (State δ) Bool}
    (hfail : ∀ e, Total (ticking D) (fail e)) : Total (ticking D) (writeReply D fail) := by
  refine (Total.store _).bind fun _ => (uciReadRespBytes_total _ _).bind fun _ =>
    drainAck_total.bind fun _ => .ite (.pure _) (Total.cells.bind fun m => ?_)
  cases countError m with
  | none => exact .pure _
  | some e => exact hfail e

theorem socketWrite_total : Total (ticking D) (socketWrite D) :=
  uciWaitIdle_total.bind fun _ => .ite (.pure _) ((sta_total _ _).bind fun _ =>
    (sta_total _ _).bind fun _ => Total.cells.bind fun _ => (sta_total _ _).bind fun _ =>
      Total.cells.bind fun _ => (bodyLoop_total _).bind fun _ => uciPushWait_total.bind fun _ =>
        .ite (.pure _) (uciCheckErr_total.bind fun _ =>
          .ite ((setLastError_total _).bind fun _ => drainAck_total.bind fun _ => .pure _)
            (writeReply_total failWith_total)))

theorem spStatusErr_total (e : UInt8) : Total (ticking D) (spStatusErr e) :=
  (setLastError_total e).bind fun _ => Total.cells.bind fun _ =>
    (Total.when (setLastError_total _)).bind fun _ => .pure _

theorem settleLoop_total (reads : Nat) (prev : UInt8) :
    Total (ticking D) (settleLoop D reads prev) := by
  induction reads generalizing prev with
  | zero => exact Total.giveUp.bind fun _ => (setLastError_total _).bind fun _ => .pure _
  | succ reads ih => exact (lda_total _).bind fun _ => .ite (.pure _) (ih _)

theorem completingPart_total : Total (ticking D) (completingPart D) :=
  writeReply_total fun e => .ite (spStatusErr_total e) (failWith_total e)

theorem spMore_total : Total (ticking D) (spMore D) := by
  refine (Total.store _).bind fun _ => (statusWait_total _ _).bind fun _ => .ite (.pure _)
    ((settleLoop_total _ _).bind fun r => ?_)
  cases r with
  | none => exact .pure _
  | some status =>
    exact (Total.when (uciReadRespBytes_total _ _)).bind fun _ => drainAck_total.bind fun _ =>
      .ite (.pure _) (Total.cells.bind fun _ => .ite (spStatusErr_total _) (.pure _))

theorem uciSendPart_total : Total (ticking D) (uciSendPart D) :=
  uciWaitIdle_total.bind fun _ => .ite (.pure _) ((Total.store _).bind fun _ =>
    (sta_total _ _).bind fun _ => (sta_total _ _).bind fun _ => Total.cells.bind fun _ =>
      (sta_total _ _).bind fun _ => (sta_total _ _).bind fun _ => (sta_total _ _).bind fun _ =>
        (sta_total _ _).bind fun _ => (sta_total _ _).bind fun _ => (Total.store _).bind fun _ =>
          (bodyLoop_total _).bind fun _ => uciPushWait_total.bind fun _ => .ite (.pure _)
            (uciCheckErr_total.bind fun _ =>
              .ite (drainAck_total.bind fun _ => .ite (.pure _) (spStatusErr_total _))
                (Total.cells.bind fun _ => .ite completingPart_total spMore_total)))

theorem partLoop_body_total (u : Unit) : Total (ticking D) (partLoop D u) :=
  uciSendPart_total.bind fun _ => .ite (.pure _) (Total.cells.bind fun _ =>
    .ite (.pure _) (.pure _))

/-- **The parts run out**: each pass that goes on has moved the offset on. -/
theorem partLoop_ends {s : State δ} (hs : D.Ticks s.dev) (hoff : s.mem.uciChunkOff < s.mem.uciSendRem)
    (hmax : s.mem.uciSendRem < 65535) : (Prog.loop (partLoop D) ()).Ends s := by
  refine Prog.Ends.loop
    (I := fun (_ : Unit) (t : State δ) => D.Ticks t.dev ∧ t.mem.uciChunkOff < t.mem.uciSendRem ∧
      t.mem.uciSendRem < 65535)
    (r := InvImage (· < ·) fun x => x.2.mem.uciSendRem - x.2.mem.uciChunkOff)
    (fun u t ht => (partLoop_body_total (D := D) u).ends t ht.1) ?_
    ((InvImage.wf _ Nat.lt_wfRel.wf).apply _) ⟨hs, hoff, hmax⟩
  rintro u t u' t' ⟨ht, hoff, hmax⟩ hround
  have hticks := (ticking D).closed ht ((partLoop_body_total u).touches t _ t' hround)
  obtain ⟨hrem, hmoved, hleft⟩ := partLoop_next hoff hmax hround
  refine ⟨⟨hticks, hleft, by rwa [hrem]⟩, ?_⟩
  show t'.mem.uciSendRem - t'.mem.uciChunkOff < t.mem.uciSendRem - t.mem.uciChunkOff
  omega

theorem openSocket_total : Total (ticking D) (openSocket D) :=
  Total.cells.bind fun _ => .ite (.pure _) (uciUdpConnect_total.bind fun _ => .ite (.pure _)
    ((Total.store _).bind fun _ => .pure _))

/-- `net_udp_send` ends, in both builds. -/
theorem netUdpSend_ends (chunked : Bool) (ptr : Nat) {s : State δ} (hs : D.Ticks s.dev) :
    (netUdpSend D chunked ptr).Ends s := by
  refine (store_ends _ s).bind fun u s₁ hstage => (cells_ends s₁).bind fun m s₁' hcells => ?_
  obtain ⟨-, hmem₁, hdev₁⟩ := store_spec hstage
  obtain ⟨rfl, rfl⟩ := cells_spec hcells
  rw [← hdev₁] at hs
  refine .ite (fun _ => .pure _ s₁) fun hpos => .ite (fun _ => ?_) fun hfits => ?_
  · exact (Prog.Ends.act _ s₁).bind fun _ s₂ _ => .pure _ s₂
  refine (openSocket_total.ends s₁ hs).bind fun c s₂ hopen => ?_
  have hs₂ : D.Ticks s₂.dev := (ticking D).closed hs (openSocket_total.touches s₁ c s₂ hopen)
  obtain ⟨es, -, -, -, -, -, hcore, -⟩ := openSocket_spec hopen
  have hrem : s₂.mem.uciSendRem = s₁.mem.uciSendRem := (congrArg UciMem.uciSendRem hcore :)
  refine .ite (fun _ => .pure _ s₂) fun _ => .ite (fun _ => ?_) fun _ => socketWrite_total.ends s₂ hs₂
  refine (store_ends _ s₂).bind fun u s₃ hzero => ?_
  obtain ⟨-, hmem₃, hdev₃⟩ := store_spec hzero
  have hmax : netUdpSendMax chunked < 65535 := by
    unfold netUdpSendMax
    split <;> omega
  refine partLoop_ends (by rwa [hdev₃]) ?_ ?_
  · rw [hmem₃]
    show 0 < s₂.mem.uciSendRem
    omega
  · rw [hmem₃]
    show s₂.mem.uciSendRem < 65535
    omega

end C64WireGuard.Uci
