import C64WireGuard.MainLoop

/-!
# Elapsed time, as `timer.s` measures it

`timer_elapsed_cmp` subtracts two of the clock's three bytes, and knows nothing of the reset at
midnight. `timer_exact_iff` says between which moments it still compares the true number of ticks, and
so when `timer_check` acts on time.
-/

namespace C64WireGuard

open Bytes

variable {σ : Type}

/-! ## The comparison -/

/-- The low 16 bits of the difference between two readings of the clock. -/
def lowDifference (now started : Nat) : Nat :=
  (now % jiffyPeriod % 65536 + 65536 - started % jiffyPeriod % 65536) % 65536

/-- `timer_elapsed_cmp` compares the low difference. -/
theorem timerElapsedCmp_eq (now started : Nat) (thrLo thrHi : UInt8) :
    timerElapsedCmp (jiffyAt now) (jiffyAt started) thrLo thrHi =
      decide (thrLo.toNat + 256 * thrHi.toNat ≤ lowDifference now started) := by
  have hsub := sub16_spec (byte (jiffyAt now) 2) (byte (jiffyAt now) 1) (byte (jiffyAt started) 2)
    (byte (jiffyAt started) 1)
  have hbytes : ∀ t, (byte (jiffyAt t) 2).toNat + 256 * (byte (jiffyAt t) 1).toNat =
      t % jiffyPeriod % 65536 := by
    intro t
    have h₂ : byte (jiffyAt t) 2 = UInt8.ofNat (t % jiffyPeriod) := rfl
    have h₁ : byte (jiffyAt t) 1 = UInt8.ofNat (t % jiffyPeriod / 256) := rfl
    rw [h₁, h₂, UInt8.toNat_ofNat', UInt8.toNat_ofNat']
    omega
  rw [hbytes, hbytes] at hsub
  change _ = lowDifference now started at hsub
  simp only [timerElapsedCmp]
  generalize sub16 (byte (jiffyAt now) 2) (byte (jiffyAt now) 1) (byte (jiffyAt started) 2)
    (byte (jiffyAt started) 1) = d at *
  have h₁ := d.1.toNat_lt
  have h₂ := thrLo.toNat_lt
  split
  · rename_i h
    rw [UInt8.lt_iff_toNat_lt] at h
    exact (decide_eq_false (by omega)).symm
  · rename_i h
    rw [UInt8.lt_iff_toNat_lt] at h
    split
    · rename_i hne
      have hne' : d.2.toNat ≠ thrHi.toNat := fun hc => hne (UInt8.toNat_inj.mp hc)
      exact (decide_eq_true (by omega)).symm
    · rename_i heq
      have heq' : d.2.toNat = thrHi.toNat := by rw [not_not.mp heq]
      rw [decide_eq_decide, UInt8.le_iff_toNat_le]
      omega

/-- Within 24 hours the low difference is off by whole multiples of 65536, and by 6656 more when the
clock was reset in between. -/
theorem lowDifference_eq {started now : Nat} (hle : started ≤ now)
    (hlt : now - started < jiffyPeriod) :
    lowDifference now started =
      if now / jiffyPeriod = started / jiffyPeriod then (now - started) % 65536
      else (now - started + 58880) % 65536 := by
  have h₁ := Nat.div_add_mod now jiffyPeriod
  have h₂ := Nat.div_add_mod started jiffyPeriod
  unfold lowDifference
  unfold jiffyPeriod at *
  split
  · rename_i hday
    rw [hday] at h₁
    omega
  · rename_i hday
    have hnext : now / 0x4f1a00 = started / 0x4f1a00 + 1 := by omega
    rw [hnext] at h₁
    omega

/-- Where the comparison with `threshold` gives what the true number of ticks gives. -/
def ComparesExactly (started now threshold : Nat) : Prop :=
  let ticks := now - started
  if now / jiffyPeriod = started / jiffyPeriod then ticks < 65536 ∨ threshold ≤ ticks % 65536
  else if ticks < 6656 then threshold ≤ ticks ∨ ticks + 58880 < threshold
  else ticks < threshold ∨ threshold ≤ (ticks - 6656) % 65536

theorem lowDifference_exact_iff {started now threshold : Nat} (hle : started ≤ now)
    (hlt : now - started < jiffyPeriod) (hthr : threshold < 65536) :
    (threshold ≤ lowDifference now started ↔ threshold ≤ now - started) ↔
      ComparesExactly started now threshold := by
  rw [lowDifference_eq hle hlt, ComparesExactly]
  generalize now - started = ticks
  split
  · omega
  · split
    · omega
    · have hreset : (ticks + 58880) % 65536 = (ticks - 6656) % 65536 := by omega
      rw [hreset]
      omega

/-! ## `timer_check` -/

theorem wgState_transportSend (env : Env σ) (sender : Sender) (m : Machine σ) :
    (transportSend env sender m).1.wgState = m.wgState := by
  simp only [transportSend, callTransportEncrypt]
  split
  · rfl
  · split <;> split <;> rfl

theorem checkRekey_wgState (env : Env σ) (m : Machine σ) :
    (checkRekey env m).wgState = m.wgState := by
  simp only [checkRekey]
  split
  · rfl
  · split <;> rfl

theorem timerMarkSend_wgState (env : Env σ) (m : Machine σ) :
    (timerMarkSend env m).wgState = m.wgState := rfl

theorem printString_wgState (m : Machine σ) (s : Str) : (m.printString s).wgState = m.wgState := rfl

theorem checkKeepalive_wgState (env : Env σ) (m : Machine σ) :
    (checkKeepalive env m).wgState = m.wgState := by
  rw [checkKeepalive]
  dsimp only
  split
  · rw [printString_wgState, timerMarkSend_wgState, wgState_transportSend]
    rfl
  · rfl

/-- A session is dropped when the comparison says so. -/
theorem timerCheck_active (env : Env σ) {m : Machine σ} (hst : m.wgState = .active) :
    (timerCheck env m).wgState = .idle ↔
      timerElapsedCmp (jiffyAt (m.elapse env).ticks) m.timer.sessionStartJiffy 0x30 0x2a = true := by
  have hstate : ((m.elapse env).log (.timerCheck (m.elapse env).ticks)).wgState = .active := hst
  have hclock : ((m.elapse env).log (.timerCheck (m.elapse env).ticks)).jiffy =
      jiffyAt (m.elapse env).ticks := rfl
  have hstart : ((m.elapse env).log (.timerCheck (m.elapse env).ticks)).timer.sessionStartJiffy =
      m.timer.sessionStartJiffy := rfl
  rw [timerCheck]
  generalize (m.elapse env).log (.timerCheck (m.elapse env).ticks) = r at *
  rw [hstate]
  dsimp only
  rw [timerCheckActive, hclock, hstart]
  split
  · rename_i hcmp
    exact iff_of_true rfl hcmp
  · rename_i hcmp
    refine iff_of_false ?_ hcmp
    rw [checkKeepalive_wgState, checkRekey_wgState, hstate]
    decide

/-- A handshake is given up when the comparison says so. -/
theorem timerCheck_hsSent (env : Env σ) {m : Machine σ} (hst : m.wgState = .hsSent)
    (harmed : m.timer.hsTimerArmed = true) :
    (timerCheck env m).wgState = .idle ↔
      timerElapsedCmp (jiffyAt (((m.elapse env).log (.timerCheck (m.elapse env).ticks)).elapse
        env).ticks) m.timer.sessionStartJiffy 0x18 0x15 = true := by
  have hstate : ((m.elapse env).log (.timerCheck (m.elapse env).ticks)).wgState = .hsSent := hst
  have harmed' : ((m.elapse env).log (.timerCheck (m.elapse env).ticks)).timer.hsTimerArmed = true :=
    harmed
  have hstart : ((m.elapse env).log (.timerCheck (m.elapse env).ticks)).timer.sessionStartJiffy =
      m.timer.sessionStartJiffy := rfl
  rw [timerCheck]
  generalize (m.elapse env).log (.timerCheck (m.elapse env).ticks) = r at *
  rw [hstate]
  dsimp only
  rw [timerCheckHandshake, if_pos harmed']
  dsimp only
  have hclock : (r.elapse env).jiffy = jiffyAt (r.elapse env).ticks := rfl
  have hstart' : (r.elapse env).timer.sessionStartJiffy = m.timer.sessionStartJiffy := hstart
  rw [hclock, hstart']
  split
  · rename_i hcmp
    exact iff_of_true rfl hcmp
  · rename_i hcmp
    refine iff_of_false ?_ hcmp
    show r.wgState ≠ .idle
    rw [hstate]
    decide

/-! ## The condition -/

/-- The moment at which `timer_check_handshake` looks at the clock. -/
def handshakeCheckTicks (env : Env σ) (m : Machine σ) : Nat :=
  (((m.elapse env).log (.timerCheck (m.elapse env).ticks)).elapse env).ticks

/-- **When elapsed time is measured right**, within 24 hours: the comparison is that of the true number
of ticks exactly where `ComparesExactly` says, and so is the end of a session after 10800 ticks and
that of a handshake after 5400. -/
theorem timer_exact_iff (env : Env σ) :
    (∀ started now thrLo thrHi, started ≤ now → now - started < jiffyPeriod →
      ((timerElapsedCmp (jiffyAt now) (jiffyAt started) thrLo thrHi = true ↔
          thrLo.toNat + 256 * thrHi.toNat ≤ now - started) ↔
        ComparesExactly started now (thrLo.toNat + 256 * thrHi.toNat))) ∧
    (∀ m started, m.wgState = .active → m.timer.sessionStartJiffy = jiffyAt started →
      started ≤ (m.elapse env).ticks → (m.elapse env).ticks - started < jiffyPeriod →
      (((timerCheck env m).wgState = .idle ↔ 10800 ≤ (m.elapse env).ticks - started) ↔
        ComparesExactly started (m.elapse env).ticks 10800)) ∧
    ∀ m started, m.wgState = .hsSent → m.timer.hsTimerArmed = true →
      m.timer.sessionStartJiffy = jiffyAt started → started ≤ handshakeCheckTicks env m →
      handshakeCheckTicks env m - started < jiffyPeriod →
      (((timerCheck env m).wgState = .idle ↔ 5400 ≤ handshakeCheckTicks env m - started) ↔
        ComparesExactly started (handshakeCheckTicks env m) 5400) := by
  have hcmp : ∀ started now thrLo thrHi, started ≤ now → now - started < jiffyPeriod →
      ((timerElapsedCmp (jiffyAt now) (jiffyAt started) thrLo thrHi = true ↔
          thrLo.toNat + 256 * thrHi.toNat ≤ now - started) ↔
        ComparesExactly started now (thrLo.toNat + 256 * thrHi.toNat)) := by
    intro started now thrLo thrHi hle hlt
    have hlo := thrLo.toNat_lt
    have hhi := thrHi.toNat_lt
    rw [timerElapsedCmp_eq, decide_eq_true_iff]
    exact lowDifference_exact_iff hle hlt (by omega)
  refine ⟨hcmp, ?_, ?_⟩
  · intro m started hst hstart hle hlt
    have hthr : (0x30 : UInt8).toNat + 256 * (0x2a : UInt8).toNat = 10800 := by decide
    rw [timerCheck_active env hst, hstart, ← hthr]
    exact hcmp started _ 0x30 0x2a hle hlt
  · intro m started hst harmed hstart hle hlt
    have hthr : (0x18 : UInt8).toNat + 256 * (0x15 : UInt8).toNat = 5400 := by decide
    rw [timerCheck_hsSent env hst harmed, hstart, ← hthr]
    exact hcmp started _ 0x18 0x15 hle hlt

/-- 18 minutes and 12 seconds after the snapshot, the comparison is not that of the true number of
ticks. -/
theorem timerElapsedCmp_wraps :
    ¬ (timerElapsedCmp (jiffyAt 65536) (jiffyAt 0) 0x30 0x2a = true ↔ 10800 ≤ 65536 - 0) := by
  decide

end C64WireGuard
