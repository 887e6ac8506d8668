import C64WireGuard.Ip65.Clock

/-!
# Sending, with the retry

A send that the blob refuses is tried again until it goes out, the budget is used up, or the clock
turns out to stand still. The proof is an induction over the rounds of the pump; its invariant is
`Pumping`: all attempts so far failed, the clock is where `Phase` says, and the receive cells are as
they were.
-/

namespace C64WireGuard.Ip65

open Alu

variable {β : Type} {S : Setting β} {s s' : State β}

/-! ## What the log says -/

/-- Whether the attempts to send failed, the newest first. -/
def outcomes (es : List Event) : List Bool :=
  es.filterMap fun e => match e with
    | .attempt _ _ failed => some failed
    | _ => none

/-- The readings of the clock, the newest first. -/
def readings (es : List Event) : List Cell16 :=
  es.filterMap fun e => match e with
    | .reading t => some t
    | _ => none

/-! ## The disarmed callback -/

/-- The receive cells, and all memory but the blob's, are as they were. -/
structure Undisturbed (m m' : Ip65Mem) : Prop where
  ram : ∀ a, a < 0xa000 → m'.ram a = m.ram a
  len : m'.udpRecvLen = m.udpRecvLen
  ready : m'.udpRecvReady = m.udpRecvReady
  src : m'.udpRecvSrc = m.udpRecvSrc

theorem Undisturbed.refl (m : Ip65Mem) : Undisturbed m m := ⟨fun _ _ => rfl, rfl, rfl, rfl⟩

theorem Undisturbed.trans {m₁ m₂ m₃ : Ip65Mem} (h : Undisturbed m₁ m₂) (h' : Undisturbed m₂ m₃) :
    Undisturbed m₁ m₃ :=
  ⟨fun a ha => (h'.ram a ha).trans (h.ram a ha), h'.len.trans h.len, h'.ready.trans h.ready,
    h'.src.trans h.src⟩

/-- A datagram that comes in while a send pumps is counted, and that is all. -/
theorem deliver_pumping (L : Layout) {m : Ip65Mem} (h : m.ip65SendPump = 1) (inp : Nat → UInt8) :
    Undisturbed m (deliver L m inp) ∧ (deliver L m inp).ip65SendPump = 1 := by
  have hpump : m.ip65SendPump ≠ 0 := by
    rw [h]
    decide
  rw [deliver, netUdpRecvCb, if_pos hpump]
  exact ⟨⟨fun a ha => if_neg (Nat.not_le.mpr ha), rfl, rfl, rfl⟩, h⟩

theorem process_pumping (S : Setting β) (h : s.mem.ip65SendPump = 1) :
    Undisturbed s.mem (process S s).mem ∧ (process S s).mem.ip65SendPump = 1 := by
  have hfold : ∀ (inps : List (Nat → UInt8)) (m : Ip65Mem), m.ip65SendPump = 1 →
      Undisturbed m (inps.foldl (deliver S.layout) m) ∧
        (inps.foldl (deliver S.layout) m).ip65SendPump = 1 := by
    intro inps
    induction inps with
    | nil => exact fun m hm => ⟨.refl m, hm⟩
    | cons inp inps ih =>
      intro m hm
      obtain ⟨hfirst, hpump⟩ := deliver_pumping S.layout hm inp
      obtain ⟨hrest, hpump⟩ := ih _ hpump
      exact ⟨hfirst.trans hrest, hpump⟩
  exact hfold _ _ h

/-! ## One round -/

theorem budget_iff (c : Cell16) : (c.hi ≠ 0 ∨ ip65ArpBudgetJiffies ≤ c.lo) ↔ 30 ≤ c.toNat := by
  have hlo : ip65ArpBudgetJiffies ≤ c.lo ↔ 30 ≤ c.lo.toNat := Iff.rfl
  have hhi : c.hi ≠ 0 ↔ c.hi.toNat ≠ 0 := not_congr UInt8.toNat_inj.symm
  rw [hlo, hhi, Cell16.toNat]
  omega

/-- The state in which an attempt of the pump leaves the adapter, and whether it failed. -/
def tryAgain (S : Setting β) (out : Outgoing) (s : State β) : Bool × State β :=
  udpSend S out (countAttempt (process S s))

theorem apRound_returns {out : Outgoing} {t₀ : Cell16} {stall : UInt8} {r : UInt8 ⊕ Bool}
    (h : (apRound S out t₀ stall).Returns s r s') :
    ((tryAgain S out s).1 = false ∧ r = .inr false ∧ s' = (tryAgain S out s).2) ∨
      (tryAgain S out s).1 = true ∧ ∃ now s₁, (netJiffy16 S).Returns (tryAgain S out s).2 now s₁ ∧
        (30 ≤ (now.sub t₀).toNat ∧ r = .inr true ∧ s' = s₁.fail netErrIp65WaitTimeout ∨
          (now.sub t₀).toNat < 30 ∧ (stall - 1 ≠ 0 ∨ (now.sub t₀).toNat ≠ 0) ∧ r = .inl (stall - 1) ∧
            s' = s₁ ∨
          (now.sub t₀).toNat = 0 ∧ stall - 1 = 0 ∧ r = .inr true ∧
            s' = s₁.fail netErrTimebaseStopped) := by
  rw [apRound] at h
  obtain ⟨_, s₁, hprocess, h⟩ := Prog.returns_bind.mp h
  obtain ⟨-, rfl⟩ := Prog.returns_act.mp hprocess
  obtain ⟨refused, s₂, htry, h⟩ := Prog.returns_bind.mp h
  obtain ⟨hrefused, rfl⟩ := Prog.returns_act.mp htry
  rcases Prog.returns_ite.mp h with ⟨hc, h⟩ | ⟨hc, h⟩
  · refine .inr ⟨hrefused.symm.trans hc, ?_⟩
    obtain ⟨now, s₃, hnow, h⟩ := Prog.returns_bind.mp h
    refine ⟨now, s₃, hnow, ?_⟩
    have hbudget := budget_iff (now.sub t₀)
    rcases Prog.returns_ite.mp h with ⟨hover, h⟩ | ⟨hover, h⟩
    · obtain ⟨rfl, rfl⟩ := Prog.returns_act.mp h
      exact .inl ⟨hbudget.mp hover, rfl, rfl⟩
    · have hlt : (now.sub t₀).toNat < 30 := Nat.not_le.mp fun hle => hover (hbudget.mpr hle)
      have hhigh : (now.sub t₀).hi = 0 := by
        by_contra hne
        exact hover (.inl hne)
      have hzero : (now.sub t₀).toNat = 0 ↔ (now.sub t₀).lo = 0 := by
        rw [Cell16.toNat, hhigh, ← UInt8.toNat_inj]
        have : (0 : UInt8).toNat = 0 := rfl
        omega
      rcases Prog.returns_ite.mp h with ⟨hgo, h⟩ | ⟨hgo, h⟩
      · obtain ⟨rfl, rfl⟩ := Prog.returns_pure.mp h
        exact .inr (.inl ⟨hlt, hgo.imp_right fun hne => fun heq => hne (hzero.mp heq), rfl, rfl⟩)
      · obtain ⟨rfl, rfl⟩ := Prog.returns_act.mp h
        obtain ⟨hstall, hlow⟩ := not_or.mp hgo
        exact .inr (.inr ⟨hzero.mpr (not_not.mp hlow), not_not.mp hstall, rfl, rfl⟩)
  · obtain ⟨rfl, rfl⟩ := Prog.returns_pure.mp h
    exact .inl ⟨hrefused.symm.trans (Bool.eq_false_iff.mpr hc), rfl, rfl⟩

/-! ## The pump -/

/-- The difference that a round computes. -/
theorem toNat_sub_reading {t₀ v : Cell16} {a b : Nat} (h₀ : t₀.toNat = low16 a)
    (hv : v.toNat = low16 b) : (v.sub t₀).toNat = elapsed16 a b := by
  rw [Cell16.toNat_sub, h₀, hv]
  rfl

/-- The first reading of a call. -/
theorem netJiffy16_first (hclock : Paced S.time) {v : Cell16} (h : (netJiffy16 S).Returns s v s') :
    ∃ l, s.loads ≤ l ∧ Steady S.time l ∧ v.toNat = low16 (S.time (l + 1)) ∧
      s' = { s with loads := l + 3, log := .reading v :: s.log } := by
  obtain ⟨n, -, hsteady, rfl, hs'⟩ := netJiffy16_returns h
  exact ⟨s.loads + 3 * n, by omega, hsteady,
    readingAt_coherent hclock.mono hsteady (hclock.window _), hs'⟩

/-- A reading after the one that began at `l`. -/
theorem netJiffy16_next (hclock : Paced S.time) {l : Nat} (hl : Steady S.time l)
    (hloads : s.loads = l + 3) {v : Cell16} (h : (netJiffy16 S).Returns s v s') :
    ∃ l', l < l' ∧ Steady S.time l' ∧ v.toNat = low16 (S.time (l' + 1)) ∧
      S.time (l' + 1) < S.time (l + 1) + 60000 ∧
      s' = { s with loads := l' + 3, log := .reading v :: s.log } := by
  obtain ⟨n, hmoved, hsteady, rfl, hs'⟩ := netJiffy16_returns h
  have hindex : ∀ k, s.loads + 3 * k = l + 3 * (k + 1) := fun k => by omega
  rw [hindex] at hsteady hs' ⊢
  refine ⟨l + 3 * (n + 1), by omega, hsteady, ?_, ?_, hs'⟩
  · exact readingAt_coherent hclock.mono hsteady (hclock.window _)
  · refine hclock.gap l (n + 1) (Nat.succ_pos n) hl (fun i hi hin => ?_) hsteady
    obtain ⟨k, rfl⟩ := Nat.exists_eq_add_of_le' hi
    rw [← hindex]
    exact hmoved k (by omega)

/-- The pump after `n` attempts that failed: `s₀` is the state after its first reading, which began at
`l₀`, the last reading began at `l`, and `es` is what was logged in between. -/
structure Pumping (S : Setting β) (s₀ : State β) (l₀ : Nat) (s : State β) (n l : Nat) (stall : UInt8)
    (es : List Event) : Prop where
  loads : s.loads = l + 3
  steady : Steady S.time l
  later : l₀ ≤ l
  log : s.log = es ++ s₀.log
  failed : outcomes es = List.replicate n true
  count : (readings es).length = n
  stall : (stall.toNat + n) % 256 = 0
  phase : Phase (S.time (l₀ + 1)) (S.time (l + 1))
  below : elapsed16 (S.time (l₀ + 1)) (S.time (l + 1)) < 30
  moved : 256 ≤ n → S.time (l + 1) / jiffyPeriod = S.time (l₀ + 1) / jiffyPeriod →
    S.time (l₀ + 1) < S.time (l + 1)
  recv : Undisturbed s₀.mem s.mem
  pump : s.mem.ip65SendPump = 1

/-- An attempt of the pump is logged, and disturbs nothing. -/
theorem tryAgain_spec (S : Setting β) (out : Outgoing) (h : s.mem.ip65SendPump = 1) :
    (∃ reg, (tryAgain S out s).2.log = .attempt reg out (tryAgain S out s).1 :: s.log) ∧
      (tryAgain S out s).2.loads = s.loads ∧ Undisturbed s.mem (tryAgain S out s).2.mem ∧
      (tryAgain S out s).2.mem.ip65SendPump = 1 := by
  obtain ⟨hrecv, hpump⟩ := process_pumping S h
  have hcount : Undisturbed (process S s).mem (tryAgain S out s).2.mem :=
    ⟨fun _ _ => rfl, rfl, rfl, rfl⟩
  exact ⟨⟨_, rfl⟩, rfl, hrecv.trans hcount, hpump⟩

/-- How a pump ends: with the attempt that went out, or with a reading that shows that the budget is
used up or that the clock stands still. -/
inductive Ended (S : Setting β) (l₀ : Nat) (s' : State β) (es : List Event) : Bool → Prop
  | sent (n : Nat) (log : outcomes es = false :: List.replicate n true) : Ended S l₀ s' es false
  | gaveUp (n l : Nat) (v : Cell16) (between : List Cell16) (loads : s'.loads = l + 3)
      (later : l₀ < l) (failed : outcomes es = List.replicate n true)
      (read : readings es = v :: between) (length : between.length + 1 = n)
      (last : v.toNat = low16 (S.time (l + 1)))
      (verdict : s'.mem.netLastError = netErrIp65WaitTimeout ∧
          30 ≤ elapsed16 (S.time (l₀ + 1)) (S.time (l + 1)) ∨
        s'.mem.netLastError = netErrTimebaseStopped ∧
          elapsed16 (S.time (l₀ + 1)) (S.time (l + 1)) = 0 ∧ n % 256 = 0 ∧
          (S.time (l + 1) / jiffyPeriod = S.time (l₀ + 1) / jiffyPeriod →
            S.time (l + 1) = S.time (l₀ + 1) ∧ n = 256)) : Ended S l₀ s' es true

/-- **One round of the pump.** -/
theorem Pumping.round (hclock : Paced S.time) {s₀ : State β} {l₀ n l : Nat} {stall : UInt8}
    {es : List Event} (h : Pumping S s₀ l₀ s n l stall es) {out : Outgoing} {t₀ : Cell16}
    (ht₀ : t₀.toNat = low16 (S.time (l₀ + 1))) {r : UInt8 ⊕ Bool}
    (hround : (apRound S out t₀ stall).Returns s r s') :
    ∃ es', s'.log = es' ++ s₀.log ∧ Undisturbed s₀.mem s'.mem ∧
      ((∃ stall' l', r = .inl stall' ∧ l < l' ∧ stall' = stall - 1 ∧
          (stall' ≠ 0 ∨ elapsed16 (S.time (l₀ + 1)) (S.time (l' + 1)) ≠ 0) ∧
          Pumping S s₀ l₀ s' (n + 1) l' stall' es') ∨
        ∃ c, r = .inr c ∧ Ended S l₀ s' es' c) := by
  obtain ⟨⟨reg, hlog⟩, hloads, hrecv, hpump⟩ := tryAgain_spec S out h.pump
  have hrecv := h.recv.trans hrecv
  rcases apRound_returns hround with ⟨hsent, rfl, rfl⟩ | ⟨hrefused, now, s₁, hnow, hrest⟩
  · refine ⟨.attempt reg out false :: es, by rw [hlog, hsent, h.log]; rfl, hrecv,
      .inr ⟨false, rfl, .sent n ?_⟩⟩
    rw [← h.failed]
    rfl
  · obtain ⟨l', hlater, hsteady, hvalue, hgap, rfl⟩ :=
      netJiffy16_next hclock h.steady (hloads.trans h.loads) hnow
    rw [toNat_sub_reading ht₀ hvalue] at hrest
    generalize hd : elapsed16 (S.time (l₀ + 1)) (S.time (l' + 1)) = d at hrest
    have hmono : S.time (l + 1) ≤ S.time (l' + 1) := hclock.mono (by omega)
    have houtcomes : outcomes (.reading now :: .attempt reg out true :: es) =
        List.replicate (n + 1) true := by
      rw [List.replicate_succ, ← h.failed]
      rfl
    have hlog' : Event.reading now :: (tryAgain S out s).2.log =
        (.reading now :: .attempt reg out true :: es) ++ s₀.log := by
      rw [hlog, hrefused, h.log]
      rfl
    have hmod : (stall - 1).toNat = (stall.toNat + 255) % 256 := by
      have hlt := stall.toNat_lt
      have hone : (1 : UInt8).toNat = 1 := rfl
      rw [UInt8.toNat_sub, hone]
      omega
    have hstall := h.stall
    have hcount : (readings es).length + 1 = n + 1 := congrArg (· + 1) h.count
    -- a clock that has moved by the last reading has moved by this one
    have hmoved : 256 ≤ n → S.time (l' + 1) / jiffyPeriod = S.time (l₀ + 1) / jiffyPeriod →
        S.time (l₀ + 1) < S.time (l' + 1) := by
      intro hmany hday
      have hstart : S.time (l₀ + 1) ≤ S.time (l + 1) := hclock.mono (Nat.succ_le_succ h.later)
      refine (h.moved hmany (Nat.le_antisymm ?_ (Nat.div_le_div_right hstart))).trans_le hmono
      rw [← hday]
      exact Nat.div_le_div_right hmono
    have hzero : (0 : UInt8).toNat = 0 := rfl
    rcases hrest with ⟨hover, rfl, rfl⟩ | ⟨hunder, hgo, rfl, rfl⟩ | ⟨hnone, hlast, rfl, rfl⟩
    · refine ⟨_, hlog', hrecv.trans ⟨fun _ _ => rfl, rfl, rfl, rfl⟩, .inr ⟨true, rfl, ?_⟩⟩
      exact .gaveUp (n + 1) l' now (readings es) rfl (h.later.trans_lt hlater) houtcomes rfl hcount
        hvalue (.inl ⟨rfl, hd ▸ hover⟩)
    · have hphase := h.phase.step h.below hmono hgap (hd ▸ hunder)
      refine ⟨_, hlog', hrecv, .inl ⟨stall - 1, l', rfl, hlater, rfl, by rwa [hd], ?_⟩⟩
      refine ⟨rfl, hsteady, h.later.trans hlater.le, hlog', houtcomes, hcount, by omega, hphase,
        hd ▸ hunder, fun hmany hday => ?_, hrecv, hpump⟩
      by_cases hbefore : 256 ≤ n
      · exact hmoved hbefore hday
      · have hone : stall - 1 = 0 := UInt8.toNat_inj.mp (by rw [hmod, hzero]; omega)
        have hne := hgo.resolve_left (not_not.mpr hone)
        rcases hphase with ⟨-, hnow⟩ | ⟨hnext, -⟩
        · omega
        · omega
    · have hphase := h.phase.step h.below hmono hgap (by omega)
      have hmultiple : (n + 1) % 256 = 0 := by
        have := congrArg UInt8.toNat hlast
        rw [hmod, hzero] at this
        omega
      refine ⟨_, hlog', hrecv.trans ⟨fun _ _ => rfl, rfl, rfl, rfl⟩, .inr ⟨true, rfl, ?_⟩⟩
      refine .gaveUp (n + 1) l' now (readings es) rfl (h.later.trans_lt hlater) houtcomes rfl hcount
        hvalue (.inr ⟨rfl, hd.trans hnone, hmultiple, fun hday => ?_⟩)
      rcases hphase with ⟨-, hnow⟩ | ⟨hnext, -⟩
      · refine ⟨by omega, ?_⟩
        by_contra hne
        have := hmoved (by omega) hday
        omega
      · omega

/-! ## The pump comes to an end -/

theorem apRound_ends (hclock : Paced S.time) (out : Outgoing) (t₀ : Cell16) (stall : UInt8)
    (s : State β) : (apRound S out t₀ stall).Ends s := by
  rw [apRound]
  refine (Prog.Ends.act _ _).bind fun _ s₁ _ => (Prog.Ends.act _ _).bind fun refused s₂ _ => ?_
  refine .ite (fun _ => ?_) fun _ => .pure _ _
  obtain ⟨n, hsteady⟩ := hclock.steady s₂.loads
  refine (netJiffy16_ends hsteady).bind fun now s₃ _ => ?_
  exact .ite (fun _ => .act _ _) fun _ => .ite (fun _ => .pure _ _) fun _ => .act _ _

/-- A clock that keeps ticking gets past every moment. -/
theorem exists_le_time {time : Nat → Nat} (h : ∀ k, ∃ k', k < k' ∧ time k < time k') (m : Nat) :
    ∃ k, m ≤ time k := by
  induction m with
  | zero => exact ⟨0, Nat.zero_le _⟩
  | succ m ih =>
    obtain ⟨k, hk⟩ := ih
    obtain ⟨k', -, hlt⟩ := h k
    exact ⟨k', by omega⟩

/-- **The pump ends.** While the clock stands still every round takes one off the stall counter; and a
clock that ticks gets out of every `Phase`. -/
theorem pump_ends (hclock : Paced S.time) (out : Outgoing) {s₀ : State β} {l₀ : Nat} {t₀ : Cell16}
    (ht₀ : t₀.toNat = low16 (S.time (l₀ + 1))) {l : Nat} {es : List Event}
    (h : Pumping S s₀ l₀ s 0 l 0 es) : (Prog.loop (apRound S out t₀) 0).Ends s := by
  have hround : ∀ {stall s j s'}, (∃ n l es, Pumping S s₀ l₀ s n l stall es) →
      (apRound S out t₀ stall).Returns s (.inl j) s' →
      (∃ n l es, Pumping S s₀ l₀ s' n l j es) ∧ s.loads < s'.loads ∧ j = stall - 1 ∧
        (j ≠ 0 ∨ ∃ l', elapsed16 (S.time (l₀ + 1)) (S.time (l' + 1)) ≠ 0) := by
    rintro stall s j s' ⟨n, l, es, hp⟩ hr
    obtain ⟨es', -, -, ⟨stall', l', hj, hlt, hstall, hgo, hp'⟩ | ⟨c, hc, -⟩⟩ := hp.round hclock ht₀ hr
    · obtain rfl := Sum.inl.inj hj
      exact ⟨⟨_, _, _, hp'⟩, by rw [hp.loads, hp'.loads]; omega, hstall, hgo.imp_right fun h => ⟨_, h⟩⟩
    · exact nomatch hc
  rcases hclock.moves with hstill | hticks
  · -- the stall counter, which begins with 256 rounds
    refine Prog.Ends.loop (I := fun stall s => ∃ n l es, Pumping S s₀ l₀ s n l stall es)
      (r := InvImage (· < ·) fun p => if p.1 = 0 then 256 else p.1.toNat)
      (fun stall s _ => apRound_ends hclock out t₀ stall s) (fun stall s j s' hI hr => ?_)
      ((InvImage.wf _ Nat.lt_wfRel.wf).apply _) ⟨0, l, es, h⟩
    obtain ⟨hI', -, rfl, hgo⟩ := hround hI hr
    have hne : stall - 1 ≠ 0 := by
      refine hgo.resolve_right ?_
      rintro ⟨l', hmoved⟩
      refine hmoved ?_
      rw [hstill (l' + 1), hstill (l₀ + 1), elapsed16, Nat.add_sub_cancel_left]
    refine ⟨hI', ?_⟩
    have hlt := stall.toNat_lt
    have hone : (1 : UInt8).toNat = 1 := rfl
    have hsub : (stall - 1).toNat = (stall.toNat + 255) % 256 := by
      rw [UInt8.toNat_sub, hone]
      omega
    change (if stall - 1 = 0 then 256 else (stall - 1).toNat) < if stall = 0 then 256 else stall.toNat
    rw [if_neg hne, hsub]
    by_cases hz : stall = 0
    · rw [if_pos hz]
      omega
    · have : stall.toNat ≠ 0 := fun h => hz (UInt8.toNat_inj.mp h)
      rw [if_neg hz]
      omega
  · -- the looks at the clock that are left until it is past the budget
    obtain ⟨K, hK⟩ := exists_le_time hticks (S.time (l₀ + 1) + 60059)
    refine Prog.Ends.loop (I := fun stall s => ∃ n l es, Pumping S s₀ l₀ s n l stall es)
      (r := InvImage (· < ·) fun p => K + 2 - p.2.loads)
      (fun stall s _ => apRound_ends hclock out t₀ stall s) (fun stall s j s' hI hr => ?_)
      ((InvImage.wf _ Nat.lt_wfRel.wf).apply _) ⟨0, l, es, h⟩
    obtain ⟨hI', hlt, -⟩ := hround hI hr
    refine ⟨hI', ?_⟩
    obtain ⟨n, l', es', hp⟩ := hI'
    have hbefore : l' + 1 < K := by
      by_contra hge
      have := hclock.mono (Nat.not_lt.mp hge)
      have := hp.phase.lt hp.below
      omega
    have := hp.loads
    change K + 2 - s'.loads < K + 2 - s.loads
    omega

/-- **What a pump that ended has done.** -/
theorem pump_ended (hclock : Paced S.time) {s₀ : State β} {l₀ : Nat} {out : Outgoing} {t₀ : Cell16}
    (ht₀ : t₀.toNat = low16 (S.time (l₀ + 1))) {l : Nat} {es : List Event}
    (h : Pumping S s₀ l₀ s 0 l 0 es) {c : Bool}
    (hloop : (Prog.loop (apRound S out t₀) 0).Returns s c s') :
    ∃ es', s'.log = es' ++ s₀.log ∧ Undisturbed s₀.mem s'.mem ∧ Ended S l₀ s' es' c := by
  refine hloop.loop_rule (I := fun stall s => ∃ n l es, Pumping S s₀ l₀ s n l stall es)
    (Q := fun c s' => ∃ es', s'.log = es' ++ s₀.log ∧ Undisturbed s₀.mem s'.mem ∧
      Ended S l₀ s' es' c) (fun stall s j s' hI hr => ?_) (fun stall s a s' hI hr => ?_)
    ⟨0, l, es, h⟩
  · obtain ⟨n, l, es, hp⟩ := hI
    obtain ⟨es', -, -, ⟨stall', l', hj, -, -, -, hp'⟩ | ⟨c, hc, -⟩⟩ := hp.round hclock ht₀ hr
    · obtain rfl := Sum.inl.inj hj
      exact ⟨_, _, _, hp'⟩
    · exact nomatch hc
  · obtain ⟨n, l, es, hp⟩ := hI
    obtain ⟨es', hlog, hrecv, ⟨stall', l', hj, -⟩ | ⟨c, hc, hended⟩⟩ := hp.round hclock ht₀ hr
    · exact nomatch hj
    · obtain rfl := Sum.inr.inj hc
      exact ⟨es', hlog, hrecv, hended⟩

theorem Ended.edit {l₀ : Nat} {es : List Event} {c : Bool} (h : Ended S l₀ s es c) {f : Ip65Mem → Ip65Mem}
    (hf : (f s.mem).netLastError = s.mem.netLastError) : Ended S l₀ (s.edit f) es c := by
  cases h with
  | sent n log => exact .sent n log
  | gaveUp n l v between loads later failed read length last verdict =>
    refine .gaveUp n l v between loads later failed read length last ?_
    rw [State.edit, hf]
    exact verdict

/-- **`net_arp_pump`** returns, with the callback armed again. -/
theorem netArpPump_returns (hclock : Paced S.time) (out : Outgoing) (s : State β) :
    ∃ c s', (netArpPump S out).Returns s c s' ∧ ∃ es t₀ l₀, s'.log = es ++ .reading t₀ :: s.log ∧
      Undisturbed s.mem s'.mem ∧ s'.mem.ip65SendPump = 0 ∧ s.loads ≤ l₀ ∧
      t₀.toNat = low16 (S.time (l₀ + 1)) ∧ Ended S l₀ s' es c := by
  let armed : State β := s.edit fun m => { m with ip65SendPump := 1 }
  obtain ⟨n, hsteady⟩ := hclock.steady armed.loads
  obtain ⟨t₀, s₀, ht₀⟩ := netJiffy16_ends hsteady
  obtain ⟨l₀, hle, hl₀, hvalue, hs₀⟩ := netJiffy16_first hclock ht₀
  have hpumping : Pumping S s₀ l₀ s₀ 0 l₀ 0 [] := by
    refine ⟨by rw [hs₀], hl₀, Nat.le_refl _, rfl, rfl, rfl, rfl, .start _, ?_, fun h => ?_, .refl _, ?_⟩
    · rw [elapsed16, Nat.add_sub_cancel_left]
      decide
    · exact absurd h (by decide)
    · rw [hs₀]
      rfl
  obtain ⟨c, s₁, hloop⟩ := pump_ends hclock out hvalue hpumping
  obtain ⟨es, hlog, hrecv, hended⟩ := pump_ended hclock hvalue hpumping hloop
  refine ⟨c, s₁.edit fun m => { m with ip65SendPump := 0 }, ?_, es, t₀, l₀, ?_, ?_, rfl, hle, hvalue,
    hended.edit rfl⟩
  · exact Prog.returns_bind.mpr ⟨(), armed, Prog.returns_act.mpr ⟨rfl, rfl⟩,
      Prog.returns_bind.mpr ⟨t₀, s₀, ht₀, Prog.returns_bind.mpr ⟨c, s₁, hloop,
        Prog.returns_act.mpr ⟨rfl, rfl⟩⟩⟩⟩
  · change s₁.log = _
    rw [hlog, hs₀]
    rfl
  · have harmed : Undisturbed s.mem s₀.mem := by
      rw [hs₀]
      exact ⟨fun _ _ => rfl, rfl, rfl, rfl⟩
    exact (harmed.trans hrecv).trans ⟨fun _ _ => rfl, rfl, rfl, rfl⟩

/-! ## `net_udp_send` -/

/-- The readings and the attempts of a call that gave up after `n` retries. The first reading looked at
the low byte of the clock at `a`, and the last at `b`. -/
structure GaveUp (S : Setting β) (s s' : State β) (es : List Event) (a b n : Nat) : Prop where
  began : s.loads ≤ a
  order : a < b
  ended : b < s'.loads
  failed : outcomes es = List.replicate (n + 1) true
  read : ∃ t v between, readings es = v :: (between ++ [t]) ∧ between.length + 1 = n ∧
    t.toNat = low16 (S.time a) ∧ v.toNat = low16 (S.time b)

/-- What a send reports: `es` is what it asked of the blob and the clock, the newest first. -/
structure Verdict (S : Setting β) (s : State β) (es : List Event) (c : Bool) (s' : State β) : Prop where
  log : s'.log = es ++ s.log
  success : c = false ↔ false ∈ outcomes es
  last : c = false → ∃ n, outcomes es = false :: List.replicate n true
  failure : c = true →
    (s'.mem.netLastError = netErrIp65UdpListen ∧ es = [.listen true]) ∨
    ∃ a b n, GaveUp S s s' es a b n ∧
      (s'.mem.netLastError = netErrIp65WaitTimeout ∧ 30 ≤ elapsed16 (S.time a) (S.time b) ∨
        s'.mem.netLastError = netErrTimebaseStopped ∧ elapsed16 (S.time a) (S.time b) = 0 ∧
          n % 256 = 0 ∧
          (S.time b / jiffyPeriod = S.time a / jiffyPeriod → S.time b = S.time a ∧ n = 256))
  pump : s.mem.ip65SendPump = 0 → s'.mem.ip65SendPump = 0
  recv : Undisturbed s.mem s'.mem

theorem outcomes_append (es fs : List Event) : outcomes (es ++ fs) = outcomes es ++ outcomes fs :=
  List.filterMap_append

theorem readings_append (es fs : List Event) : readings (es ++ fs) = readings es ++ readings fs :=
  List.filterMap_append

/-- The verdict on a send whose first attempt failed, from what the pump did. -/
theorem Ended.verdict {s₁ : State β} {pre es : List Event} {reg : Bool} {out : Outgoing}
    {t₀ : Cell16} {l₀ : Nat} {c : Bool} (h : Ended S l₀ s' es c)
    (hpre : outcomes pre = [] ∧ readings pre = [])
    (hs₁ : s₁.log = .attempt reg out true :: (pre ++ s.log)) (hloads : s₁.loads = s.loads)
    (hle : s₁.loads ≤ l₀) (ht₀ : t₀.toNat = low16 (S.time (l₀ + 1)))
    (hlog : s'.log = es ++ .reading t₀ :: s₁.log) (hpump : s'.mem.ip65SendPump = 0)
    (hrecv : Undisturbed s.mem s'.mem) :
    Verdict S s (es ++ .reading t₀ :: .attempt reg out true :: pre) c s' := by
  have houtcomes : outcomes (es ++ .reading t₀ :: .attempt reg out true :: pre) =
      outcomes es ++ [true] := by
    rw [outcomes_append]
    exact congrArg (fun l => outcomes es ++ (true :: l)) hpre.1
  have hreadings : readings (es ++ .reading t₀ :: .attempt reg out true :: pre) =
      readings es ++ [t₀] := by
    rw [readings_append]
    exact congrArg (fun l => readings es ++ (t₀ :: l)) hpre.2
  have hnone : ∀ n, false ∉ List.replicate n true ++ [true] := by
    intro n hmem
    rcases List.mem_append.mp hmem with hmem | hmem
    · exact absurd (List.eq_of_mem_replicate hmem) (by decide)
    · exact absurd (List.mem_singleton.mp hmem) (by decide)
  have hlogs : s'.log = (es ++ .reading t₀ :: .attempt reg out true :: pre) ++ s.log := by
    rw [hlog, hs₁]
    simp
  cases h with
  | sent n log =>
    refine ⟨hlogs, ⟨fun _ => ?_, fun _ => rfl⟩, fun _ => ⟨n + 1, ?_⟩, (fun h => nomatch h),
      fun _ => hpump, hrecv⟩
    · rw [houtcomes, log]
      exact List.mem_cons_self
    · rw [houtcomes, log, List.replicate_succ', List.cons_append]
  | gaveUp n l v between loads later failed read length last verdict =>
    refine ⟨hlogs, ⟨(fun h => nomatch h), fun hmem => ?_⟩, (fun h => nomatch h), fun _ => .inr ?_,
      fun _ => hpump, hrecv⟩
    · rw [houtcomes, failed] at hmem
      exact absurd hmem (hnone n)
    · refine ⟨l₀ + 1, l + 1, n, ⟨by omega, by omega, by omega, ?_, t₀, v, between, ?_, length, ht₀, last⟩,
        verdict⟩
      · rw [houtcomes, failed, List.replicate_succ']
      · rw [hreadings, read, List.cons_append]

/-- The part of a send behind the listener: one attempt, and the pump if it fails. -/
theorem sendOut_returns (hclock : Paced S.time) (out : Outgoing) (s₀ s₁ : State β) (pre : List Event)
    (hpre : outcomes pre = [] ∧ readings pre = []) (hlog : s₁.log = pre ++ s₀.log)
    (hloads : s₁.loads = s₀.loads) (hrecv : Undisturbed s₀.mem s₁.mem)
    (hpump : s₁.mem.ip65SendPump = s₀.mem.ip65SendPump) :
    ∃ c s' es, (sendOut S out).Returns s₁ c s' ∧ Verdict S s₀ es c s' := by
  have hact : (Prog.act (udpSend S out)).Returns s₁ (udpSend S out s₁).1 (udpSend S out s₁).2 :=
    Prog.returns_act.mpr ⟨rfl, rfl⟩
  obtain ⟨reg, hsent⟩ : ∃ reg, (udpSend S out s₁).2.log =
      .attempt reg out (udpSend S out s₁).1 :: (pre ++ s₀.log) := by
    rw [← hlog]
    exact ⟨_, rfl⟩
  have hrecv₂ : Undisturbed s₀.mem (udpSend S out s₁).2.mem :=
    hrecv.trans ⟨fun _ _ => rfl, rfl, rfl, rfl⟩
  have hloads₂ : (udpSend S out s₁).2.loads = s₀.loads := hloads
  have hpump₂ : (udpSend S out s₁).2.mem.ip65SendPump = s₀.mem.ip65SendPump := hpump
  generalize hs₂ : (udpSend S out s₁).2 = s₂ at *
  cases hrefused : (udpSend S out s₁).1 with
  | false =>
    rw [hrefused] at hact hsent
    have hout : outcomes (.attempt reg out false :: pre) = [false] :=
      congrArg (fun l => false :: l) hpre.1
    refine ⟨false, s₂, .attempt reg out false :: pre, Prog.returns_bind.mpr ⟨_, _, hact,
      Prog.returns_ite.mpr (.inr ⟨by decide, Prog.returns_pure.mpr ⟨rfl, rfl⟩⟩)⟩, hsent,
      ⟨fun _ => ?_, fun _ => rfl⟩, fun _ => ⟨0, hout⟩, (fun h => nomatch h), hpump₂.trans, hrecv₂⟩
    rw [hout]
    exact List.mem_singleton.mpr rfl
  | true =>
    rw [hrefused] at hact hsent
    obtain ⟨c, s', hret, es, t₀, l₀, hlog', hrecv', hdone, hle, ht₀, hended⟩ :=
      netArpPump_returns hclock out s₂
    exact ⟨c, s', _, Prog.returns_bind.mpr ⟨_, _, hact, Prog.returns_ite.mpr (.inl ⟨rfl, hret⟩)⟩,
      hended.verdict hpre hsent hloads₂ hle ht₀ hlog' hdone (hrecv₂.trans hrecv')⟩

/-- What listening does to all but the listener's own cells. -/
theorem netUdpListen_spec (s : State β) :
    (netUdpListen s).1.log = .listen (netUdpListen s).2 :: s.log ∧
      (netUdpListen s).1.loads = s.loads ∧ Undisturbed s.mem (netUdpListen s).1.mem ∧
      (netUdpListen s).1.mem.ip65SendPump = s.mem.ip65SendPump ∧
      ((netUdpListen s).2 = true → (netUdpListen s).1.mem.netLastError = netErrIp65UdpListen) := by
  rw [netUdpListen]
  cases hadd : (s.table.add s.mem.wgLocalPort).2 with
  | true => exact ⟨rfl, rfl, ⟨fun _ _ => rfl, rfl, rfl, rfl⟩, rfl, fun _ => rfl⟩
  | false => exact ⟨rfl, rfl, ⟨fun _ _ => rfl, rfl, rfl, rfl⟩, rfl, (fun h => nomatch h)⟩

/-- **Sending.** For every blob and every clock that the budget can go by, `net_udp_send` returns. It
reports success exactly when an attempt went out, and that was the last one; otherwise it reports that
it could not listen again, and made no attempt, or that the budget is used up, the 16-bit difference of
its first and last reading being 30 or more, or that the clock stands still, the difference being 0
after a multiple of 256 retries. Unless midnight came in between, the clock has then not moved, and
there were 256. The callback is armed when it returns, and what came in meanwhile has not touched the
receive cells. Each reading is the clock's value at a moment of the call that made it. -/
theorem netUdpSend_verdict (S : Setting β) (hclock : Paced S.time) :
    (∀ (s : State β) (dest : Endpoint) (ptr : Nat) (len : Cell16),
      ∃ c s' es, (netUdpSend S dest ptr len).Returns s c s' ∧ Verdict S s es c s') ∧
    ∀ (s s' : State β) (v : Cell16), (netJiffy16 S).Returns s v s' →
      ∃ k, s.loads ≤ k ∧ k < s'.loads ∧ v.toNat = jiffies (S.time k) % 65536 := by
  constructor
  · intro s dest ptr len
    let s₁ : State β := s.edit fun m => { m with netLastError := 0, ip65SendAttempts := 1 }
    have hstart : Undisturbed s.mem s₁.mem := ⟨fun _ _ => rfl, rfl, rfl, rfl⟩
    -- from the listener on
    have hgo : ∀ {noListener s₂ c s'}, reclaim s₁ = (noListener, s₂) →
        (if noListener then Pure.pure true else sendOut S (stageOut dest ptr len s₂.mem) :
          Prog (State β) Bool).Returns s₂ c s' → (netUdpSend S dest ptr len).Returns s c s' := by
      intro noListener s₂ c s' hreclaim hrest
      refine Prog.returns_bind.mpr ⟨(), s₁, Prog.returns_act.mpr ⟨rfl, rfl⟩, Prog.returns_bind.mpr
        ⟨noListener, s₂, Prog.returns_act.mpr ?_, Prog.returns_bind.mpr
          ⟨s₂.mem, s₂, Prog.returns_act.mpr ⟨rfl, rfl⟩, hrest⟩⟩⟩
      rw [hreclaim]
      exact ⟨rfl, rfl⟩
    by_cases hclosed : s₁.mem.ip65Listening = 0 ∧
        s₁.mem.ip65ListenPort.lo ||| s₁.mem.ip65ListenPort.hi ≠ 0
    · have hreclaim : reclaim s₁ = ((netUdpListen s₁).2, (netUdpListen s₁).1) := if_pos hclosed
      obtain ⟨hlog, hloads, hrecv, hpump, herror⟩ := netUdpListen_spec s₁
      cases hlisten : (netUdpListen s₁).2 with
      | true =>
        rw [hlisten] at hreclaim hlog
        exact ⟨true, _, [.listen true], hgo hreclaim (Prog.returns_pure.mpr ⟨rfl, rfl⟩), hlog,
          ⟨(fun h => nomatch h), (fun h => nomatch h)⟩, (fun h => nomatch h),
          fun _ => .inl ⟨herror hlisten, rfl⟩, hpump.trans, hstart.trans hrecv⟩
      | false =>
        rw [hlisten] at hreclaim hlog
        obtain ⟨c, s', es, hret, hverdict⟩ := sendOut_returns hclock
          (stageOut dest ptr len (netUdpListen s₁).1.mem) s _ [.listen false] ⟨rfl, rfl⟩
          hlog hloads (hstart.trans hrecv) hpump
        exact ⟨c, s', es, hgo hreclaim hret, hverdict⟩
    · have hreclaim : reclaim s₁ = (false, s₁) := if_neg hclosed
      obtain ⟨c, s', es, hret, hverdict⟩ := sendOut_returns hclock (stageOut dest ptr len s₁.mem) s
        s₁ [] ⟨rfl, rfl⟩ rfl rfl hstart rfl
      exact ⟨c, s', es, hgo hreclaim hret, hverdict⟩
  · intro s s' v h
    obtain ⟨l, hle, -, hvalue, rfl⟩ := netJiffy16_first hclock h
    exact ⟨l + 1, by omega, by dsimp only; omega, hvalue⟩

/-! ## Runs on fixed clocks -/

/-- A blob that refuses as many attempts as its state says, and the clock. -/
def sampleSetting (time : Nat → Nat) : Setting Nat where
  layout := ⟨0x8800, by decide⟩
  blob :=
    { ip65Init := fun n => (n, false)
      ip65DhcpInit := fun n => (n, false)
      ip65Process := fun n => (n, [])
      ip65UdpSend := fun _ _ n => (n - 1, decide (n ≠ 0)) }
  time := time

/-- The adapter before any listen, with a blob that refuses `n` attempts. -/
def sampleState (n : Nat) : State Nat where
  mem := .start fun _ => 0
  table := .empty
  blob := n
  loads := 0
  log := []

/-- A clock that stands still, and a blob that refuses one attempt. -/
theorem netUdpSend_verdict_still :
    ∃ c s' es, (netUdpSend (sampleSetting fun _ => 0) ⟨.zero 4, .zero 2⟩ 0 (.ofNat 32)).Returns
      (sampleState 1) c s' ∧ Verdict (sampleSetting fun _ => 0) (sampleState 1) es c s' := by
  have hclock : Paced (sampleSetting fun _ => 0).time :=
    ⟨fun _ _ _ => Nat.le_refl _, fun _ => Nat.zero_le _, fun _ => ⟨0, rfl⟩, .inl fun _ => rfl,
      fun _ _ _ _ _ _ => Nat.zero_lt_succ _⟩
  exact (netUdpSend_verdict (sampleSetting fun _ => 0) hclock).1 (sampleState 1) ⟨.zero 4, .zero 2⟩ 0
    (.ofNat 32)

/-- Midnight between the first two looks of a round, and 6400 jiffies later the third. -/
def slowClock : Nat → Nat
  | 0 => jiffyPeriod - 1
  | 1 => jiffyPeriod + 128
  | _ => jiffyPeriod + 6400

/-- 6656 jiffies between the first reading of a pump and the second, past midnight; the clock goes on
after the 257th. -/
def lateClock (k : Nat) : Nat :=
  if k < 3 then jiffyPeriod - 1 else jiffyPeriod + 6655 + (k - 771)

/-- A clock that ticks 256 times between any two looks never lets a round end. -/
theorem not_steady_fast (k : Nat) : ¬ Steady (fun k => 256 * k) k := by
  intro h
  have hmid := congrArg UInt8.toNat h
  unfold jiffyMid hi jiffies jiffyPeriod at hmid
  rw [UInt8.toNat_ofNat', UInt8.toNat_ofNat'] at hmid
  have hdiv : ∀ k, 256 * k % 0x4f1a00 / 256 = k % 20250 := fun k => by omega
  rw [hdiv, hdiv] at hmid
  omega

/-- The clock as three looks around midnight show it. -/
theorem reading_slowClock : readingAt slowClock 0 = ⟨0x80, 0x19⟩ := by decide

/-- No moment of the round shows that reading. -/
theorem low16_slowClock {t : Nat} (hle : slowClock 0 ≤ t) (hge : t ≤ slowClock 2) :
    low16 t ≠ 0x1980 := by
  have hstart : slowClock 0 = 5183999 := rfl
  have hend : slowClock 2 = 5190400 := rfl
  rw [hstart] at hle
  rw [hend] at hge
  unfold low16 jiffies jiffyPeriod
  rcases Nat.eq_or_lt_of_le hle with rfl | hlt
  · decide
  · have hj : t % 5184000 = t - 5184000 := by omega
    rw [hj]
    omega

/-- The send on the late clock: the answer, the error code, and how often it looked at the clock. -/
theorem run_lateClock :
    (((netUdpSend (sampleSetting lateClock) ⟨.zero 4, .zero 2⟩ 0 (.ofNat 32)).run 300
      (sampleState 300)).map fun r => (r.1, r.2.mem.netLastError, r.2.loads)) =
      some (true, netErrTimebaseStopped, 771) := by
  decide +kernel

/-- A pump that returns has seen a steady round. -/
theorem netArpPump_steady {out : Outgoing} {c : Bool} (h : (netArpPump S out).Returns s c s') :
    ∃ k, Steady S.time k := by
  rw [netArpPump] at h
  obtain ⟨_, s₁, -, h⟩ := Prog.returns_bind.mp h
  obtain ⟨t₀, s₂, hfirst, -⟩ := Prog.returns_bind.mp h
  obtain ⟨n, -, hsteady, -⟩ := netJiffy16_returns hfirst
  exact ⟨_, hsteady⟩

/-- **What goes wrong with some clocks.** A reading may be one that the clock has not shown at all
while it was made; a send may report that the clock stands still although it has moved by 6656
jiffies; and a send may not return. -/
theorem netUdpSend_clocks :
    (∃ v s', (netJiffy16 (sampleSetting slowClock)).Returns (sampleState 0) v s' ∧
      ∀ t, slowClock 0 ≤ t → t ≤ slowClock 2 → v.toNat ≠ low16 t) ∧
    (∃ s', (netUdpSend (sampleSetting lateClock) ⟨.zero 4, .zero 2⟩ 0 (.ofNat 32)).Returns
      (sampleState 300) true s' ∧ s'.mem.netLastError = netErrTimebaseStopped ∧
      lateClock 2 + 6656 = lateClock (s'.loads - 1)) ∧
    ∀ c s', ¬ (netUdpSend (sampleSetting fun k => 256 * k) ⟨.zero 4, .zero 2⟩ 0 (.ofNat 32)).Returns
      (sampleState 300) c s' := by
  refine ⟨⟨_, _, Prog.returns_loop.mpr (.inl (jiffyRound_returns.mpr (.inr ⟨by decide, rfl, rfl⟩))),
    fun t hle hge heq => ?_⟩, ?_, fun c s' h => ?_⟩
  · exact low16_slowClock hle hge (heq.symm.trans (congrArg Cell16.toNat reading_slowClock))
  · obtain ⟨⟨c, s'⟩, hrun, hout⟩ := Option.map_eq_some_iff.mp run_lateClock
    rw [Prod.mk.injEq, Prod.mk.injEq] at hout
    obtain ⟨rfl, herror, hloads⟩ := hout
    refine ⟨s', ⟨300, hrun⟩, herror, ?_⟩
    rw [hloads]
    decide
  · rw [netUdpSend] at h
    obtain ⟨_, s₁, hbegin, h⟩ := Prog.returns_bind.mp h
    obtain ⟨-, rfl⟩ := Prog.returns_act.mp hbegin
    obtain ⟨noListener, s₂, hreclaim, h⟩ := Prog.returns_bind.mp h
    obtain ⟨rfl, rfl⟩ := Prog.returns_act.mp hreclaim
    obtain ⟨m, s₃, hmem, h⟩ := Prog.returns_bind.mp h
    obtain ⟨rfl, rfl⟩ := Prog.returns_act.mp hmem
    rcases Prog.returns_ite.mp h with ⟨hfailed, -⟩ | ⟨-, h⟩
    · exact nomatch hfailed
    · rw [sendOut] at h
      obtain ⟨refused, s₄, hsend, h⟩ := Prog.returns_bind.mp h
      obtain ⟨rfl, rfl⟩ := Prog.returns_act.mp hsend
      rcases Prog.returns_ite.mp h with ⟨-, h⟩ | ⟨hdone, -⟩
      · obtain ⟨k, hsteady⟩ := netArpPump_steady h
        exact not_steady_fast k hsteady
      · exact absurd rfl hdone

end C64WireGuard.Ip65
