import C64WireGuard.HandshakeInputs
import Mathlib.Data.List.Chain

/-!
# Handshake timestamps

A peer drops an initiation whose timestamp is not above the last one it saw. `tai64n_now` holds its
result above `tai64n_last`, which nothing resets, so the timestamps increase over any sequence of
calls, whatever the base time and the clock do (`timeRun_increases`).
-/

namespace C64WireGuard

open Bytes

/-! ## Calls -/

/-- The cells of the timeline. -/
structure Timeline where
  tai : TaiMem
  tai64nBaseTime : Bytes 8
  hsTimestamp : Bytes 12

/-- What can happen to them: a new base time is staged, `config_load` calls `tai64n_sync`, or
`tai64n_init` or `tai64n_now` is called, each with the clock cells holding anything. -/
inductive TimeCall
  | stageBase (base : Bytes 8)
  | sync (jiffy : Bytes 3)
  | init (jiffy : Bytes 3)
  | now (jiffy : Bytes 3)

/-- Make a call. A timestamp is emitted by `tai64n_now` alone. -/
def timeCall (s : Timeline) : TimeCall → List (Bytes 12) × Timeline
  | .stageBase base => ([], { s with tai64nBaseTime := base })
  | .sync jiffy =>
      let r := tai64nSync jiffy s.tai64nBaseTime s.tai s.hsTimestamp
      ([], { s with tai := r.1, hsTimestamp := r.2 })
  | .init jiffy =>
      let r := tai64nInit jiffy s.tai64nBaseTime s.tai
      ([], { s with tai := r.1, hsTimestamp := r.2 })
  | .now jiffy =>
      let r := tai64nNow jiffy s.tai64nBaseTime s.tai
      ([r.2], { s with tai := r.1, hsTimestamp := r.2 })

/-- Calls one after another, and the timestamps emitted, oldest first. -/
def timeRun : List TimeCall → Timeline → List (Bytes 12) × Timeline
  | [], s => ([], s)
  | c :: cs, s =>
      let r := timeCall s c
      let rest := timeRun cs r.2
      (r.1 ++ rest.1, rest.2)

/-! ## Timestamps as numbers -/

/-- The nanosecond field. -/
def nanoseconds (ts : Bytes 12) : Nat := be (slice ts 8 4)

theorem be_timestamp (ts : Bytes 12) : be ts = be (slice ts 0 8) * 2 ^ 32 + nanoseconds ts :=
  be_eq_add ts (show 8 + 4 = 12 from rfl)

theorem nanoseconds_lt (ts : Bytes 12) : nanoseconds ts < 2 ^ 32 := be_lt _

theorem nanoseconds_copyIn (ts : Bytes 12) (nano : Bytes 4) :
    nanoseconds (copyIn ts 8 nano) = be nano := by
  rw [nanoseconds, slice_copyIn_self _ _ (by decide)]

theorem slice_copyIn_seconds (ts : Bytes 12) (seconds : Bytes 8) :
    slice (copyIn ts 0 seconds) 0 8 = seconds := slice_copyIn_self _ _ (by decide)

theorem slice_seconds_copyIn (ts : Bytes 12) (nano : Bytes 4) :
    slice (copyIn ts 8 nano) 0 8 = slice ts 0 8 := slice_copyIn_disjoint _ _ (.inr (by decide))

/-- `tai64n_increment` adds one, and the nanosecond field grows by at most one. -/
theorem be_tai64nIncrement (ts : Bytes 12) :
    be (tai64nIncrement ts) = (be ts + 1) % 2 ^ 96 ∧
      nanoseconds (tai64nIncrement ts) ≤ nanoseconds ts + 1 := by
  have hnano := nanoseconds_lt ts
  have hsec := be_lt (slice ts 0 8)
  have hts := be_timestamp ts
  rw [tai64nIncrement]
  change be (slice ts 8 4) < 2 ^ 32 at hnano
  by_cases h : be (slice ts 8 4) + 1 < 2 ^ 32
  · have hfield : be (ofBe 4 (be (slice ts 8 4) + 1)) = be (slice ts 8 4) + 1 := by
      rw [be_ofBe]
      omega
    simp only [if_pos h]
    rw [be_timestamp (copyIn _ _ _), nanoseconds_copyIn, slice_seconds_copyIn, hfield]
    simp only [nanoseconds] at hts ⊢
    omega
  · have hzero : be (zero 4) = 0 := by decide +kernel
    have hfield : be (ofBe 8 ((be (slice ts 0 8) + 1) % 2 ^ 64)) =
        (be (slice ts 0 8) + 1) % 2 ^ 64 := by
      rw [be_ofBe]
      omega
    simp only [if_neg h]
    have hlow : nanoseconds (copyIn (copyIn ts 8 (zero 4)) 0
        (ofBe 8 ((be (slice ts 0 8) + 1) % 2 ^ 64))) = 0 := by
      rw [nanoseconds, slice_copyIn_disjoint _ _ (.inl (by decide)),
        slice_copyIn_self _ _ (by decide), hzero]
    rw [be_timestamp (copyIn _ _ _), hlow, slice_copyIn_seconds, hfield]
    simp only [nanoseconds] at hts ⊢
    omega

/-! ## One call -/

/-- One emitted timestamp is below the next, the last of all excepted. -/
def Below (a b : Bytes 12) : Prop := be a ≠ 2 ^ 96 - 1 → be a < be b

/-- `tai64n_now` emits a timestamp above the last one, and remembers it. -/
theorem tai64nNow_spec (jiffy : Bytes 3) (base : Bytes 8) (tai : TaiMem) :
    Below tai.tai64nLast (tai64nNow jiffy base tai).2 ∧
      (tai64nNow jiffy base tai).1.tai64nLast = (tai64nNow jiffy base tai).2 ∧
      be (tai64nNow jiffy base tai).1.tai64nSeq ≤ be tai.tai64nSeq + 1 ∧
      nanoseconds (tai64nNow jiffy base tai).2 ≤
        max (be tai.tai64nSeq) (nanoseconds tai.tai64nLast) + 1 := by
  have hseq : be (tai64nCandidate jiffy base tai).1 ≤ be tai.tai64nSeq + 1 := by
    simp only [tai64nCandidate]
    rw [be_ofBe]
    omega
  have hcand : nanoseconds (tai64nCandidate jiffy base tai).2 =
      be (tai64nCandidate jiffy base tai).1 := by
    simp only [tai64nCandidate]
    exact nanoseconds_copyIn _ _
  obtain ⟨hinc, hnano⟩ := be_tai64nIncrement tai.tai64nLast
  have hlt := be_lt tai.tai64nLast
  rw [tai64nNow]
  dsimp only
  by_cases h : be (tai64nCandidate jiffy base tai).2 ≤ be tai.tai64nLast
  · rw [if_pos h]
    refine ⟨fun hne => ?_, rfl, hseq, by omega⟩
    rw [hinc]
    omega
  · rw [if_neg h]
    exact ⟨fun _ => by omega, rfl, hseq, by omega⟩

/-! ## Any number of calls -/

/-- The invariant after `n` calls of `tai64n_now`. -/
structure Emitted (n : Nat) (s : Timeline) : Prop where
  seq : be s.tai.tai64nSeq ≤ n
  nano : nanoseconds s.tai.tai64nLast ≤ n

/-- Calls other than `tai64n_now` emit nothing and keep the last timestamp. -/
theorem timeCall_silent {s : Timeline} {c : TimeCall} (hc : ∀ jiffy, c ≠ .now jiffy) :
    (timeCall s c).1 = [] ∧ (timeCall s c).2.tai.tai64nLast = s.tai.tai64nLast ∧
      be (timeCall s c).2.tai.tai64nSeq ≤ be s.tai.tai64nSeq := by
  have hzero : be (zero 4) = 0 := by decide +kernel
  cases c with
  | stageBase base => exact ⟨rfl, rfl, le_rfl⟩
  | init jiffy => exact ⟨rfl, rfl, by simp only [timeCall, tai64nInit, hzero]; exact Nat.zero_le _⟩
  | sync jiffy =>
      rw [timeCall, tai64nSync]
      split
      · exact ⟨rfl, rfl, le_rfl⟩
      · exact ⟨rfl, rfl, by simp only [tai64nInit, hzero]; exact Nat.zero_le _⟩
  | now jiffy => exact absurd rfl (hc jiffy)

/-- From the state after `n` calls on: a chain above the last timestamp, with small nanosecond
fields. -/
theorem timeRun_emitted (calls : List TimeCall) {n : Nat} {s : Timeline} (h : Emitted n s) :
    (s.tai.tai64nLast :: (timeRun calls s).1).IsChain Below ∧
      ∀ i ts, (timeRun calls s).1[i]? = some ts → nanoseconds ts ≤ n + i + 1 := by
  induction calls generalizing n s with
  | nil => exact ⟨.singleton _, by simp [timeRun]⟩
  | cons c cs ih =>
      rw [timeRun]
      dsimp only
      by_cases hc : ∃ jiffy, c = .now jiffy
      · obtain ⟨jiffy, rfl⟩ := hc
        obtain ⟨hbelow, hlast, hseq, hnano⟩ := tai64nNow_spec jiffy s.tai64nBaseTime s.tai
        have hn := h.seq
        have hn' := h.nano
        have hnext : Emitted (n + 1) (timeCall s (.now jiffy)).2 := by
          refine ⟨hseq.trans (by omega), ?_⟩
          change nanoseconds (tai64nNow jiffy s.tai64nBaseTime s.tai).1.tai64nLast ≤ n + 1
          rw [hlast]
          omega
        obtain ⟨hchain, hfields⟩ := ih hnext
        change (List.cons (tai64nNow jiffy s.tai64nBaseTime s.tai).1.tai64nLast _).IsChain Below
          at hchain
        rw [hlast] at hchain
        refine ⟨.cons_cons hbelow hchain, ?_⟩
        intro i ts hts
        rw [timeCall, List.singleton_append] at hts
        cases i with
        | zero =>
            obtain rfl : (tai64nNow jiffy s.tai64nBaseTime s.tai).2 = ts := by simpa using hts
            omega
        | succ i =>
            rw [List.getElem?_cons_succ] at hts
            have := hfields i ts hts
            omega
      · obtain ⟨hnone, hlast, hseq⟩ := timeCall_silent (s := s) (c := c) (not_exists.mp hc)
        have hsame : Emitted n (timeCall s c).2 := ⟨hseq.trans h.seq, by rw [hlast]; exact h.nano⟩
        obtain ⟨hchain, hfields⟩ := ih hsame
        rw [hnone, List.nil_append]
        rw [hlast] at hchain
        exact ⟨hchain, hfields⟩

/-- **Timestamps increase.** From zeroed `tai64n_last` and `tai64n_seq`, over any sequence of calls
with any base times and clock readings, each timestamp `tai64n_now` leaves is above the one before
it as a 96-bit number, unless that was the greatest there is; and the nanosecond field of the `n`-th
is at most `n`. -/
theorem timeRun_increases (calls : List TimeCall) (s : Timeline) (hlast : s.tai.tai64nLast = zero 12)
    (hseq : s.tai.tai64nSeq = zero 4) :
    (timeRun calls s).1.IsChain (fun a b => be a ≠ 2 ^ 96 - 1 → be a < be b) ∧
      ∀ i ts, (timeRun calls s).1[i]? = some ts → be (slice ts 8 4) ≤ i + 1 := by
  have hstart : Emitted 0 s := by
    refine ⟨?_, ?_⟩
    · rw [hseq]
      decide +kernel
    · rw [hlast]
      decide +kernel
  obtain ⟨hchain, hfields⟩ := timeRun_emitted calls hstart
  refine ⟨hchain.tail, fun i ts hts => ?_⟩
  have := hfields i ts hts
  rwa [Nat.zero_add] at this

/-- A base time that is staged, then lowered, with the clock running backwards. -/
theorem timeRun_increases_lowered :
    (timeRun [.stageBase (ofBe 8 100), .sync (jiffyAt 600), .now (jiffyAt 700),
      .stageBase (ofBe 8 50), .sync (jiffyAt 0), .now (jiffyAt 0), .now (jiffyAt 0)]
      { tai := (Machine.start 0 () 0).tai
        tai64nBaseTime := zero 8
        hsTimestamp := zero 12 }).1.IsChain (fun a b => be a ≠ 2 ^ 96 - 1 → be a < be b) :=
  (timeRun_increases _ _ rfl rfl).1

end C64WireGuard
