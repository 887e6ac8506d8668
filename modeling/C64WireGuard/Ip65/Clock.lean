import C64WireGuard.Ip65.Net

/-!
# The clock of the send budget

`net_jiffy16` looks at the middle byte of the clock, at the low byte, and at the middle byte again, and
starts over when it moved. What it answers is a reading of the clock as long as at most 6400 jiffies go
by in a round (`netJiffy16_coherent`): after midnight the middle byte comes back earlier than the clock
does.

The budget goes by the difference of two readings. In a pump that goes on it is the time since the
first reading until midnight, and the time since some moment after midnight from then on (`Phase`).
-/

namespace C64WireGuard.Ip65

open Alu

variable {β : Type} {S : Setting β} {s s' : State β}

/-! ## Readings -/

/-- The middle byte has not moved between the first look of a round and the third. -/
def Steady (time : Nat → Nat) (k : Nat) : Prop := jiffyMid (time (k + 2)) = jiffyMid (time k)

instance (time : Nat → Nat) (k : Nat) : Decidable (Steady time k) := by
  unfold Steady
  infer_instance

/-- What a round answers when the middle byte is steady. -/
def readingAt (time : Nat → Nat) (k : Nat) : Cell16 :=
  ⟨jiffyLow (time (k + 1)), jiffyMid (time (k + 2))⟩

/-- The low 16 bits of the clock. -/
def low16 (t : Nat) : Nat := jiffies t % 65536

theorem jiffyRound_returns {r : Unit ⊕ Cell16} :
    (jiffyRound S).Returns s r s' ↔
      (¬ Steady S.time s.loads ∧ r = .inl () ∧ s' = { s with loads := s.loads + 3 }) ∨
      (Steady S.time s.loads ∧ r = .inr (readingAt S.time s.loads) ∧
        s' = { s with
          loads := s.loads + 3
          log := .reading (readingAt S.time s.loads) :: s.log }) := by
  rw [jiffyRound, Prog.returns_bind]
  constructor
  · rintro ⟨mid, s₁, hmid, h⟩
    obtain ⟨rfl, rfl⟩ := Prog.returns_act.mp hmid
    obtain ⟨low, s₂, hlow, h⟩ := Prog.returns_bind.mp h
    obtain ⟨rfl, rfl⟩ := Prog.returns_act.mp hlow
    obtain ⟨again, s₃, hagain, h⟩ := Prog.returns_bind.mp h
    obtain ⟨rfl, rfl⟩ := Prog.returns_act.mp hagain
    rcases Prog.returns_ite.mp h with ⟨hne, h⟩ | ⟨heq, h⟩
    · obtain ⟨rfl, rfl⟩ := Prog.returns_pure.mp h
      exact .inl ⟨hne, rfl, rfl⟩
    · obtain ⟨rfl, rfl⟩ := Prog.returns_act.mp h
      exact .inr ⟨not_not.mp heq, rfl, rfl⟩
  · intro h
    refine ⟨_, _, Prog.returns_act.mpr ⟨rfl, rfl⟩, Prog.returns_bind.mpr
      ⟨_, _, Prog.returns_act.mpr ⟨rfl, rfl⟩, Prog.returns_bind.mpr
        ⟨_, _, Prog.returns_act.mpr ⟨rfl, rfl⟩, Prog.returns_ite.mpr ?_⟩⟩⟩
    rcases h with ⟨hmoved, rfl, rfl⟩ | ⟨hsteady, rfl, rfl⟩
    · exact .inl ⟨hmoved, Prog.returns_pure.mpr ⟨rfl, rfl⟩⟩
    · exact .inr ⟨not_not.mpr hsteady, Prog.returns_act.mpr ⟨rfl, rfl⟩⟩

/-- **A reading**: the first round whose middle byte is steady. -/
theorem netJiffy16_returns {v : Cell16} (h : (netJiffy16 S).Returns s v s') :
    ∃ n, (∀ k, k < n → ¬ Steady S.time (s.loads + 3 * k)) ∧ Steady S.time (s.loads + 3 * n) ∧
      v = readingAt S.time (s.loads + 3 * n) ∧
      s' = { s with loads := s.loads + 3 * n + 3, log := .reading v :: s.log } := by
  refine h.loop_rule (I := fun _ t => ∃ n, (∀ k, k < n → ¬ Steady S.time (s.loads + 3 * k)) ∧
    t = { s with loads := s.loads + 3 * n }) (Q := fun v t =>
    ∃ n, (∀ k, k < n → ¬ Steady S.time (s.loads + 3 * k)) ∧ Steady S.time (s.loads + 3 * n) ∧
      v = readingAt S.time (s.loads + 3 * n) ∧
      t = { s with loads := s.loads + 3 * n + 3, log := .reading v :: s.log })
    ?_ ?_ ⟨0, fun k hk => absurd hk (Nat.not_lt_zero k), rfl⟩
  · rintro _ t _ t' ⟨n, hmoved, rfl⟩ hround
    rcases jiffyRound_returns.mp hround with ⟨hne, -, rfl⟩ | ⟨-, hr, -⟩
    · refine ⟨n + 1, fun k hk => ?_, rfl⟩
      by_cases heq : k = n
      · rw [heq]
        exact hne
      · exact hmoved k (by omega)
    · exact nomatch hr
  · rintro _ t a t' ⟨n, hmoved, rfl⟩ hround
    rcases jiffyRound_returns.mp hround with ⟨-, hr, -⟩ | ⟨hsteady, hr, rfl⟩
    · exact nomatch hr
    · obtain rfl := Sum.inr.inj hr
      exact ⟨n, hmoved, hsteady, rfl, rfl⟩

/-- A reading is answered when a steady round is due. -/
theorem netJiffy16_ends {n : Nat} (h : Steady S.time (s.loads + 3 * n)) : (netJiffy16 S).Ends s := by
  induction n generalizing s with
  | zero =>
    exact ⟨_, _, Prog.returns_loop.mpr (.inl (jiffyRound_returns.mpr (.inr ⟨h, rfl, rfl⟩)))⟩
  | succ n ih =>
    by_cases hnow : Steady S.time s.loads
    · exact ⟨_, _, Prog.returns_loop.mpr (.inl (jiffyRound_returns.mpr (.inr ⟨hnow, rfl, rfl⟩)))⟩
    · obtain ⟨v, s', hrest⟩ := ih (s := { s with loads := s.loads + 3 })
        (by rwa [show s.loads + 3 + 3 * n = s.loads + 3 * (n + 1) by omega])
      exact ⟨v, s', Prog.returns_loop.mpr (.inr ⟨(), _,
        jiffyRound_returns.mpr (.inl ⟨hnow, rfl, rfl⟩), hrest⟩)⟩

/-- Within 6400 jiffies the middle byte is the same at the end only if it was the same throughout:
midnight sets it back by more. -/
theorem mid_between {t₀ t₁ t₂ : Nat} (h₁ : t₀ ≤ t₁) (h₂ : t₁ ≤ t₂) (hwindow : t₂ ≤ t₀ + 6400)
    (hmid : t₂ % 5184000 / 256 % 256 = t₀ % 5184000 / 256 % 256) :
    t₁ % 5184000 / 256 % 256 = t₀ % 5184000 / 256 % 256 := by
  have hdays : t₂ / 5184000 = t₀ / 5184000 ∨ t₂ / 5184000 = t₀ / 5184000 + 1 := by omega
  rcases hdays with hday | hday
  · have hj₁ : t₀ % 5184000 ≤ t₁ % 5184000 ∧ t₁ % 5184000 ≤ t₂ % 5184000 ∧
        t₂ % 5184000 ≤ t₀ % 5184000 + 6400 := by omega
    generalize t₀ % 5184000 = j₀ at *
    generalize t₁ % 5184000 = j₁ at *
    generalize t₂ % 5184000 = j₂ at *
    omega
  · have hj : t₂ % 5184000 + 5184000 ≤ t₀ % 5184000 + 6400 := by omega
    have hlt := Nat.mod_lt t₀ (show 5184000 > 0 by decide)
    generalize t₀ % 5184000 = j₀ at *
    generalize t₂ % 5184000 = j₂ at *
    omega

/-- **A reading is one of the clock**, at the moment of the second look, when the round takes at most
6400 jiffies. -/
theorem readingAt_coherent {time : Nat → Nat} (hmono : Monotone time) {k : Nat}
    (hsteady : Steady time k) (hwindow : time (k + 2) ≤ time k + 6400) :
    (readingAt time k).toNat = low16 (time (k + 1)) := by
  have hmid : time (k + 2) % 5184000 / 256 % 256 = time k % 5184000 / 256 % 256 := by
    have hbytes := congrArg UInt8.toNat hsteady
    unfold jiffyMid hi jiffies at hbytes
    rwa [UInt8.toNat_ofNat', UInt8.toNat_ofNat'] at hbytes
  have hbetween : time (k + 1) % 5184000 / 256 % 256 = time k % 5184000 / 256 % 256 :=
    mid_between (hmono (Nat.le_succ k)) (hmono (Nat.le_succ (k + 1))) hwindow hmid
  have hperiod : jiffyPeriod = 5184000 := rfl
  have hpow : 2 ^ 8 = 256 := rfl
  rw [readingAt, Cell16.toNat, low16]
  unfold jiffyLow jiffyMid lo hi jiffies
  rw [UInt8.toNat_ofNat', UInt8.toNat_ofNat', hperiod, hpow, hmid, ← hbetween]
  generalize time (k + 1) % 5184000 = j
  omega

/-! ## The budget -/

/-- A clock that the budget can go by: a round of a reading takes at most 6400 jiffies and is not
disturbed for ever, and the clock either stands still or keeps ticking, with fewer than 60000 jiffies
from one reading to the next. -/
structure Paced (time : Nat → Nat) : Prop where
  mono : Monotone time
  window : ∀ k, time (k + 2) ≤ time k + 6400
  steady : ∀ k, ∃ n, Steady time (k + 3 * n)
  moves : (∀ k, time k = time 0) ∨ ∀ k, ∃ k', k < k' ∧ time k < time k'
  gap : ∀ k n, 0 < n → Steady time k → (∀ i, 0 < i → i < n → ¬ Steady time (k + 3 * i)) →
    Steady time (k + 3 * n) → time (k + 3 * n + 1) < time (k + 1) + 60000

/-- The 16-bit difference of two readings. -/
def elapsed16 (t₀ t : Nat) : Nat := (low16 t + 65536 - low16 t₀) % 65536

/-- How far a pump that goes on has come: it has run for the jiffies that the difference shows, or it
has passed midnight, less than 60030 jiffies after it began but for those. -/
def Phase (t₀ t : Nat) : Prop :=
  (t / jiffyPeriod = t₀ / jiffyPeriod ∧ t = t₀ + elapsed16 t₀ t) ∨
    (t / jiffyPeriod = t₀ / jiffyPeriod + 1 ∧ t ≤ t₀ + 60029 + elapsed16 t₀ t)

theorem Phase.start (t₀ : Nat) : Phase t₀ t₀ := by
  refine .inl ⟨rfl, ?_⟩
  rw [elapsed16, Nat.add_sub_cancel_left]
  rfl

theorem Phase.lt {t₀ t : Nat} (h : Phase t₀ t) (hd : elapsed16 t₀ t < 30) : t < t₀ + 60059 := by
  rcases h with ⟨-, h⟩ | ⟨-, h⟩
  · omega
  · omega

/-- On one day the difference grows with the clock. -/
theorem elapsed16_add (t₀ : Nat) {t t' : Nat} (hle : t ≤ t')
    (hday : t' / jiffyPeriod = t / jiffyPeriod) :
    elapsed16 t₀ t' = (elapsed16 t₀ t + (t' - t)) % 65536 := by
  have hperiod : jiffyPeriod = 5184000 := rfl
  have hlow : ∀ x, low16 x = x % 5184000 % 65536 := fun _ => rfl
  have hx : low16 t₀ < 65536 := Nat.mod_lt _ (by decide)
  rw [hperiod] at hday
  have hj : t' % 5184000 = t % 5184000 + (t' - t) := by omega
  unfold elapsed16
  rw [hlow t, hlow t', hj]
  generalize low16 t₀ = x at *
  generalize t % 5184000 = j
  generalize t' - t = δ
  omega

/-- **One more reading**, while the difference stays below the budget. -/
theorem Phase.step {t₀ t t' : Nat} (h : Phase t₀ t) (hd : elapsed16 t₀ t < 30) (hle : t ≤ t')
    (hgap : t' < t + 60000) (hd' : elapsed16 t₀ t' < 30) : Phase t₀ t' := by
  have hgrows : t' / jiffyPeriod = t / jiffyPeriod → elapsed16 t₀ t' = elapsed16 t₀ t + (t' - t) := by
    intro hday
    rw [elapsed16_add t₀ hle hday, Nat.mod_eq_of_lt (by omega)]
  unfold Phase at *
  unfold jiffyPeriod at *
  generalize elapsed16 t₀ t = d at *
  generalize elapsed16 t₀ t' = d' at *
  rcases h with ⟨hday, ht⟩ | ⟨hday, ht⟩
  · by_cases hday' : t' / 5184000 = t / 5184000
    · have := hgrows hday'
      exact .inl ⟨hday'.trans hday, by omega⟩
    · exact .inr ⟨by omega, by omega⟩
  · have hday' : t' / 5184000 = t / 5184000 := by omega
    have := hgrows hday'
    exact .inr ⟨hday'.trans hday, by omega⟩

end C64WireGuard.Ip65
