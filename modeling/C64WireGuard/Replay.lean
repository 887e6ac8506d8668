import C64WireGuard.TransportWindow
import C64WireGuard.Rfc

/-!
# Replay protection over whole runs

`decryptRun` is any sequence of `transport_decrypt` calls. By `decryptRun_refines` it is a run of
the abstract window on the counters of the authentic packets, so the two questions about it are
questions about `c64Policy`:

* it forgets counters it still answers for when one packet moves the top up by 256 to 2047 inside
  a block, because the whole bitmap is cleared then; `decryptRun_nodup` says nothing else lets a
  counter in twice;
* it does not answer for the last counters below a block of 65536 once the top is in the block,
  although they are inside the 2048 window; `decryptRun_fresh` says it turns away no other fresh
  counter.
-/

namespace C64WireGuard

open Bytes ReplayWindow

variable (p : Primitives) (key : Bytes 32)

/-! ## Runs -/

/-- One `transport_decrypt` call per datagram: the counters accepted, in order, and the cells. -/
def decryptRun : List UdpRecv → CryptoMem → TpMem → List (Bytes 8) × CryptoMem × TpMem
  | [], c, t => ([], c, t)
  | udp :: rest, c, t =>
      let r := transportDecrypt p key udp c t
      let s := decryptRun rest r.2.1 r.2.2
      (if r.1 then packetCounter udp :: s.1 else s.1, s.2)

/-- An authentic Type 4 packet with a counter below 2^60. -/
def eligible (udp : UdpRecv) : Bool :=
  byte udp.udpRecvBuf 0 == 4 && decide (le (packetCounter udp) < 2 ^ 60) && authentic p key udp

/-- The counters a run presents to the window. -/
def eligibleCounters (packets : List UdpRecv) : List Nat :=
  (packets.filter (eligible p key)).map fun udp => le (packetCounter udp)

variable {p key}

variable (p key) in
theorem accepts_eq (udp : UdpRecv) (t : TpMem) :
    accepts p key udp t =
      (eligible p key udp && admits c64Policy (window t) (le (packetCounter udp))) := by
  simp only [accepts, eligible, Bool.and_assoc]
  rw [Bool.and_comm (admits _ _ _)]

theorem window_of_session {t t' : TpMem} (h : t'.session = t.session) : window t' = window t := by
  simp only [TpMem.session, Prod.mk.injEq] at h
  rw [window, window, h.2.2.2.1, h.2.2.2.2]

theorem window_transportInit (resp : Bytes 92) (t : TpMem) :
    window (transportInit resp t) = State.init := by
  rw [window, State.init]
  congr 1
  · exact le_zero
  · funext q
    exact bitAt_zero q

/-- **A run of `transport_decrypt` is a run of the window.** -/
theorem decryptRun_refines (packets : List UdpRecv) (c : CryptoMem) (t : TpMem) :
    ((decryptRun p key packets c t).1.map le, window (decryptRun p key packets c t).2.2) =
      ReplayWindow.run c64Policy (window t) (eligibleCounters p key packets) := by
  induction packets generalizing c t with
  | nil => rfl
  | cons udp rest ih =>
      have hok := transportDecrypt_ok p key udp c t
      have hacc := accepts_eq p key udp t
      simp only [decryptRun, hok, eligibleCounters]
      cases hel : eligible p key udp with
      | false =>
          rw [hel, Bool.false_and] at hacc
          have hsess := window_of_session (transportDecrypt_rejects (c := c) hacc)
          rw [hacc, List.filter_cons_of_neg (by simp [hel])]
          have hgo := ih (transportDecrypt p key udp c t).2.1 (transportDecrypt p key udp c t).2.2
          rwa [hsess] at hgo
      | true =>
          rw [hel, Bool.true_and] at hacc
          rw [List.filter_cons_of_pos hel, List.map_cons, ReplayWindow.run]
          have hgo := ih (transportDecrypt p key udp c t).2.1 (transportDecrypt p key udp c t).2.2
          cases hadm : admits c64Policy (window t) (le (packetCounter udp)) with
          | false =>
              rw [hadm] at hacc
              rw [window_of_session (transportDecrypt_rejects (c := c) hacc)] at hgo
              rw [hacc]
              exact hgo
          | true =>
              rw [hadm] at hacc
              rw [(transportDecrypt_window (c := c) hacc).1] at hgo
              rw [hacc, if_pos rfl, if_pos rfl, List.map_cons]
              simp only [eligibleCounters] at hgo
              rw [← hgo]

variable (p key) in
/-- From `transport_init` on, in the window's terms. -/
theorem decryptRun_init (packets : List UdpRecv) (c : CryptoMem) (resp : Bytes 92) (t : TpMem) :
    ((decryptRun p key packets c (transportInit resp t)).1.map le,
      window (decryptRun p key packets c (transportInit resp t)).2.2) =
      ReplayWindow.run c64Policy State.init (eligibleCounters p key packets) := by
  rw [decryptRun_refines, window_transportInit]

/-! ## No counter twice -/

variable (p key)

/-- The packet moves the top up by 256 or more inside its block, so that the whole bitmap is
cleared, while a counter the window answers for before and after has its flag set. -/
def forgets (udp : UdpRecv) (t : TpMem) : Prop :=
  eligible p key udp = true ∧
    le t.rwCounterMax + 256 ≤ le (packetCounter udp) ∧
    le (packetCounter udp) / 65536 = le t.rwCounterMax / 65536 ∧
    ∃ k ≤ le t.rwCounterMax, le (packetCounter udp) / 65536 = k / 65536 ∧
      le (packetCounter udp) - k < 2048 ∧ bitAt t.rwBitmap (k % 2048) = true

variable {p key}

/-- A step that forgets nothing keeps the flags the window must keep: shifts below 256 clear only
the positions they move onto, and a shift into another block leaves no old counter in reach. -/
theorem keeps_of_not_forgets {udp : UdpRecv} {t : TpMem} (hel : eligible p key udp = true)
    (h : ¬ forgets p key udp t) : Keeps c64Policy (window t) (le (packetCounter udp)) := by
  intro hlt k hk hreach hseen
  rw [reach_iff] at hreach
  obtain ⟨hkc, hblock, hdist⟩ := hreach
  change le t.rwCounterMax < le (packetCounter udp) at hlt
  change k ≤ le t.rwCounterMax at hk
  change bitAt t.rwBitmap (k % 2048) = true at hseen
  change c64Policy.cleared (le t.rwCounterMax) (le (packetCounter udp)) (k % 2048) = false
  rw [← Bool.not_eq_true, cleared_iff, ringDist]
  rintro (hother | hbig | hrun)
  · omega
  · exact h ⟨hel, by omega, by omega, k, hk, hblock, hdist, hseen⟩
  · omega

theorem steady_of_not_forgets (packets : List UdpRecv) (c : CryptoMem) (t : TpMem)
    (h : ∀ pre udp post, packets = pre ++ udp :: post →
      ¬ forgets p key udp (decryptRun p key pre c t).2.2) :
    Steady c64Policy (window t) (eligibleCounters p key packets) := by
  induction packets generalizing c t with
  | nil => trivial
  | cons udp rest ih =>
      have hgo := ih (transportDecrypt p key udp c t).2.1 (transportDecrypt p key udp c t).2.2 (by
        intro pre u post hsplit
        exact h (udp :: pre) u post (by rw [hsplit]; rfl))
      have hacc := accepts_eq p key udp t
      rw [eligibleCounters]
      cases hel : eligible p key udp with
      | false =>
          rw [hel, Bool.false_and] at hacc
          rw [window_of_session (transportDecrypt_rejects hacc)] at hgo
          rw [List.filter_cons_of_neg (by simp [hel])]
          exact hgo
      | true =>
          rw [hel, Bool.true_and] at hacc
          rw [List.filter_cons_of_pos hel, List.map_cons, Steady]
          cases hadm : admits c64Policy (window t) (le (packetCounter udp)) with
          | false =>
              rw [hadm] at hacc
              rw [window_of_session (transportDecrypt_rejects hacc)] at hgo
              exact hgo
          | true =>
              rw [hadm] at hacc
              rw [(transportDecrypt_window hacc).1] at hgo
              exact ⟨keeps_of_not_forgets hel (h [] udp rest rfl), hgo⟩

/-- **No counter is accepted twice** from `transport_init` on, in a run no packet of which makes
the window forget a counter it still answers for. -/
theorem decryptRun_nodup (packets : List UdpRecv) (c : CryptoMem) (resp : Bytes 92) (t : TpMem)
    (h : ∀ pre udp post, packets = pre ++ udp :: post →
      ¬ forgets p key udp (decryptRun p key pre c (transportInit resp t)).2.2) :
    (decryptRun p key packets c (transportInit resp t)).1.Nodup := by
  have hsteady := steady_of_not_forgets packets c (transportInit resp t) h
  rw [window_transportInit] at hsteady
  have hnodup := run_nodup c64Policy_shrinking hsteady
  rw [← decryptRun_init p key packets c resp t] at hnodup
  exact hnodup.of_map _

/-! ### Genuine keepalives -/

/-- Genuine keepalives with these counters, one after the other. -/
def keepalives (key : Bytes 32) (counters : List Nat) : List UdpRecv :=
  counters.map fun n => keepalivePacket key (counterOf n)

theorem eligible_keepalivePacket (key : Bytes 32) {n : Nat} (hn : n < 2 ^ 60) :
    eligible rfcPrims key (keepalivePacket key (counterOf n)) = true := by
  have hlen : (keepalivePacket key (counterOf n)).udpRecvLen = 32 := rfl
  have hauth : authentic rfcPrims key (keepalivePacket key (counterOf n)) = true := by
    rw [authentic, decide_eq_true hlen.ge, Bool.true_and, packetCounter_keepalivePacket]
    refine (ChaChaPoly.aeadOpen_tag _ _ _ _ _).mpr ?_
    rw [ChaChaPoly.tag_empty _ _ _ (by rw [hlen]), hlen]
    exact tag_keepalivePacket key (counterOf n)
  rw [eligible, byte_keepalivePacket, packetCounter_keepalivePacket, le_counterOf hn, hauth]
  simpa using hn

theorem eligibleCounters_keepalives (key : Bytes 32) {counters : List Nat}
    (h : ∀ n ∈ counters, n < 2 ^ 60) :
    eligibleCounters rfcPrims key (keepalives key counters) = counters := by
  induction counters with
  | nil => rfl
  | cons n ns ih =>
      have hn : n < 2 ^ 60 := h n List.mem_cons_self
      have hgo := ih (fun k hk => h k (List.mem_cons_of_mem _ hk))
      rw [eligibleCounters, keepalives] at hgo
      rw [eligibleCounters, keepalives, List.map_cons,
        List.filter_cons_of_pos (eligible_keepalivePacket key hn), List.map_cons, hgo,
        packetCounter_keepalivePacket, le_counterOf hn]

/-- Genuine keepalives run through the window alone. -/
theorem decryptRun_keepalives (key : Bytes 32) (counters : List Nat) (c : CryptoMem)
    (resp : Bytes 92) (t : TpMem) (h : ∀ n ∈ counters, n < 2 ^ 60) :
    (decryptRun rfcPrims key (keepalives key counters) c (transportInit resp t)).1.map le =
        (ReplayWindow.run c64Policy State.init counters).1 ∧
      window (decryptRun rfcPrims key (keepalives key counters) c (transportInit resp t)).2.2 =
        (ReplayWindow.run c64Policy State.init counters).2 := by
  have hrun := decryptRun_init rfcPrims key (keepalives key counters) c resp t
  rw [eligibleCounters_keepalives key h] at hrun
  exact ⟨congrArg Prod.fst hrun, congrArg Prod.snd hrun⟩

/-- Counters below 256 never clear the whole bitmap. -/
theorem decryptRun_nodup_below_256 :
    (decryptRun rfcPrims (zero 32) (keepalives (zero 32) [0, 1, 1, 255, 0]) (.start 0)
        (transportInit (zero 92) .start)).1.Nodup ∧
      (decryptRun rfcPrims (zero 32) (keepalives (zero 32) [0, 1, 1, 255, 0]) (.start 0)
        (transportInit (zero 92) .start)).1.map le = [0, 1, 255] := by
  constructor
  · apply decryptRun_nodup
    intro pre udp post hsplit hforgets
    have hmem : udp ∈ keepalives (zero 32) [0, 1, 1, 255, 0] := by
      rw [hsplit]
      simp
    obtain ⟨n, hn, rfl⟩ := List.mem_map.mp hmem
    have hlt : n < 256 := by
      simp only [List.mem_cons, List.not_mem_nil, or_false] at hn
      omega
    have hle := hforgets.2.1
    rw [packetCounter_keepalivePacket, le_counterOf (by omega)] at hle
    omega
  · have hrun := decryptRun_keepalives (zero 32) [0, 1, 1, 255, 0] (.start 0) (zero 92)
      .start (by decide)
    rw [hrun.1]
    decide

/-- A jump from 0 to 300 clears the bitmap, and counter 0, still inside the window, is accepted a
second time. -/
theorem decryptRun_replay_after_jump :
    ¬ (decryptRun rfcPrims (zero 32) (keepalives (zero 32) [0, 300, 0]) (.start 0)
      (transportInit (zero 92) .start)).1.Nodup := by
  intro hnodup
  have hrun := decryptRun_keepalives (zero 32) [0, 300, 0] (.start 0) (zero 92) .start
    (by decide)
  have hmap : ((decryptRun rfcPrims (zero 32) (keepalives (zero 32) [0, 300, 0]) (.start 0)
      (transportInit (zero 92) .start)).1.map le).Nodup :=
    hnodup.map (fun a b hab => le_inj.mp hab)
  rw [hrun.1] at hmap
  revert hmap
  decide

/-! ## Every fresh counter in the window, within a block -/

variable (p key)

/-- An eligible packet whose counter was not accepted before and is above the top or at most 2047
below it. -/
def fresh (accepted : List (Bytes 8)) (udp : UdpRecv) (t : TpMem) : Prop :=
  eligible p key udp = true ∧ packetCounter udp ∉ accepted ∧
    (le t.rwCounterMax < le (packetCounter udp) ∨
      le t.rwCounterMax - le (packetCounter udp) < 2048)

/-- The packet's counter is below the top, in an earlier block of 65536. -/
def earlierBlock (udp : UdpRecv) (t : TpMem) : Prop :=
  le (packetCounter udp) / 65536 < le t.rwCounterMax / 65536

variable {p key}

variable (p key) in
theorem decryptRun_append (xs ys : List UdpRecv) (c : CryptoMem) (t : TpMem) :
    decryptRun p key (xs ++ ys) c t =
      ((decryptRun p key xs c t).1 ++
        (decryptRun p key ys (decryptRun p key xs c t).2.1 (decryptRun p key xs c t).2.2).1,
      (decryptRun p key ys (decryptRun p key xs c t).2.1 (decryptRun p key xs c t).2.2).2) := by
  induction xs generalizing c t with
  | nil => rfl
  | cons udp xs ih =>
      simp only [List.cons_append, decryptRun, ih]
      split <;> rfl

theorem mem_map_le {ctr : Bytes 8} {l : List (Bytes 8)} : le ctr ∈ l.map le ↔ ctr ∈ l := by
  rw [List.mem_map]
  constructor
  · rintro ⟨a, ha, hle⟩
    rwa [← le_inj.mp hle]
  · intro h
    exact ⟨ctr, h, rfl⟩

/-- After any run, a fresh packet is accepted unless it belongs to an earlier block. -/
theorem accepts_fresh (packets : List UdpRecv) (c : CryptoMem) (resp : Bytes 92) (t : TpMem)
    {udp : UdpRecv}
    (h : fresh p key (decryptRun p key packets c (transportInit resp t)).1 udp
      (decryptRun p key packets c (transportInit resp t)).2.2) :
    accepts p key udp (decryptRun p key packets c (transportInit resp t)).2.2 = true ↔
      ¬ earlierBlock udp (decryptRun p key packets c (transportInit resp t)).2.2 := by
  obtain ⟨hel, hnew, hwin⟩ := h
  have hrun := decryptRun_init p key packets c resp t
  generalize decryptRun p key packets c (transportInit resp t) = s at *
  have hfst := congrArg Prod.fst hrun
  have hsnd := congrArg Prod.snd hrun
  simp only at hfst hsnd
  have hfresh : le (packetCounter udp) ∉
      (ReplayWindow.run c64Policy State.init (eligibleCounters p key packets)).1 := by
    rw [← hfst, mem_map_le]
    exact hnew
  have hadm := run_exact c64Policy_shrinking c64Policy_exposing _ hfresh
  rw [← hsnd] at hadm
  rw [accepts_eq, hel, Bool.true_and, hadm, Bool.or_eq_true, decide_eq_true_eq, earlierBlock]
  change le s.2.2.rwCounterMax < _ ∨ c64Policy.reach (le s.2.2.rwCounterMax) _ = true ↔ _
  rw [reach_iff]
  omega

variable (p key) in
/-- The cells after an accepted packet: the top is the greatest counter accepted so far. -/
theorem decryptRun_top (packets : List UdpRecv) (c : CryptoMem) (resp : Bytes 92) (t : TpMem)
    (hne : (decryptRun p key packets c (transportInit resp t)).1 ≠ []) :
    (decryptRun p key packets c (transportInit resp t)).2.2.rwCounterMax ∈
        (decryptRun p key packets c (transportInit resp t)).1 ∧
      (∀ k ∈ (decryptRun p key packets c (transportInit resp t)).1,
        le k ≤ le (decryptRun p key packets c (transportInit resp t)).2.2.rwCounterMax) ∧
      le (decryptRun p key packets c (transportInit resp t)).2.2.rwCounterMax < 2 ^ 60 := by
  have hrun := decryptRun_init p key packets c resp t
  have htop := run_top (P := c64Policy) (eligibleCounters p key packets) State.init
  have hsub : ∀ k ∈ (ReplayWindow.run c64Policy State.init (eligibleCounters p key packets)).1,
      k < 2 ^ 60 := by
    intro k hk
    obtain ⟨udp, hudp, rfl⟩ := List.mem_map.mp (mem_of_mem_run _ hk)
    have hel := (List.mem_filter.mp hudp).2
    simp only [eligible, Bool.and_eq_true, decide_eq_true_eq] at hel
    exact hel.1.2
  rw [← hrun] at htop hsub
  generalize decryptRun p key packets c (transportInit resp t) = s at *
  obtain ⟨hle, -, hor⟩ := htop
  change ∀ k ∈ s.1.map le, k ≤ le s.2.2.rwCounterMax at hle
  change le s.2.2.rwCounterMax = 0 ∨ le s.2.2.rwCounterMax ∈ s.1.map le at hor
  have hmem : s.2.2.rwCounterMax ∈ s.1 := by
    rcases hor with hzero | hmem
    · obtain ⟨k, hk⟩ := List.exists_mem_of_ne_nil _ hne
      have hk0 := hle (le k) (mem_map_le.mpr hk)
      have : k = s.2.2.rwCounterMax := le_inj.mp (by omega)
      rwa [← this]
    · exact mem_map_le.mp hmem
  exact ⟨hmem, fun k hk => hle _ (mem_map_le.mpr hk), hsub _ (mem_map_le.mpr hmem)⟩

/-- **A fresh packet in the window is accepted exactly when it is not of an earlier block**, after
any run from `transport_init`; an accepted packet leaves the top at the greatest counter accepted
and `tp_recv_counter` one above it, and a rejected one leaves all three as they were. -/
theorem decryptRun_fresh (packets : List UdpRecv) (c : CryptoMem) (resp : Bytes 92) (t : TpMem)
    (udp : UdpRecv) :
    let s := decryptRun p key packets c (transportInit resp t)
    let r := transportDecrypt p key udp s.2.1 s.2.2
    ((fresh p key s.1 udp s.2.2 → r.1 = true) ↔
        ¬ (fresh p key s.1 udp s.2.2 ∧ earlierBlock udp s.2.2)) ∧
      (r.1 = true →
        r.2.2.rwCounterMax ∈ s.1 ++ [packetCounter udp] ∧
        (∀ k ∈ s.1 ++ [packetCounter udp], le k ≤ le r.2.2.rwCounterMax) ∧
        le r.2.2.tpRecvCounter = le r.2.2.rwCounterMax + 1) ∧
      (r.1 = false →
        r.2.2.rwBitmap = s.2.2.rwBitmap ∧ r.2.2.rwCounterMax = s.2.2.rwCounterMax ∧
        r.2.2.tpRecvCounter = s.2.2.tpRecvCounter) := by
  intro s r
  have hok : r.1 = accepts p key udp s.2.2 := transportDecrypt_ok p key udp s.2.1 s.2.2
  refine ⟨?_, ?_, ?_⟩
  · rw [hok]
    constructor
    · rintro h ⟨hfresh, hblock⟩
      exact (accepts_fresh packets c resp t hfresh).mp (h hfresh) hblock
    · intro h hfresh
      exact (accepts_fresh packets c resp t hfresh).mpr (fun hblock => h ⟨hfresh, hblock⟩)
  · intro hr
    have happ := decryptRun_append p key packets [udp] c (transportInit resp t)
    have hone : decryptRun p key [udp] s.2.1 s.2.2 = ([packetCounter udp], r.2) := by
      simp only [decryptRun]
      rw [if_pos hr]
    have hrun : decryptRun p key (packets ++ [udp]) c (transportInit resp t) =
        (s.1 ++ [packetCounter udp], r.2) := by
      rw [happ]
      change (s.1 ++ (decryptRun p key [udp] s.2.1 s.2.2).1, _) = _
      rw [hone]
    have htop := decryptRun_top p key (packets ++ [udp]) c resp t (by
      rw [hrun]
      simp)
    rw [hrun] at htop
    obtain ⟨hmem, hle, h60⟩ := htop
    have hinc := (transportDecrypt_window (c := s.2.1) (hok.symm.trans hr)).2
    refine ⟨hmem, hle, ?_⟩
    rw [hinc, counterInc64, le_inc]
    change le r.2.2.rwCounterMax < 2 ^ 60 at h60
    change (le r.2.2.rwCounterMax + 1) % 256 ^ 8 = _
    omega
  · intro hr
    have hsess := transportDecrypt_rejects (c := s.2.1) (hok.symm.trans hr)
    simp only [TpMem.session, Prod.mk.injEq] at hsess
    exact ⟨hsess.2.2.2.1, hsess.2.2.2.2, hsess.2.1⟩

/-- With the top at 65536, the genuine, unseen packet 65535 is turned away. -/
theorem decryptRun_fresh_rejected :
    ¬ (fresh rfcPrims (zero 32)
        (decryptRun rfcPrims (zero 32) (keepalives (zero 32) [65536]) (.start 0)
          (transportInit (zero 92) .start)).1 (keepalivePacket (zero 32) (counterOf 65535))
        (decryptRun rfcPrims (zero 32) (keepalives (zero 32) [65536]) (.start 0)
          (transportInit (zero 92) .start)).2.2 →
      (transportDecrypt rfcPrims (zero 32) (keepalivePacket (zero 32) (counterOf 65535))
        (decryptRun rfcPrims (zero 32) (keepalives (zero 32) [65536]) (.start 0)
          (transportInit (zero 92) .start)).2.1
        (decryptRun rfcPrims (zero 32) (keepalives (zero 32) [65536]) (.start 0)
          (transportInit (zero 92) .start)).2.2).1 = true) := by
  have hrun := decryptRun_keepalives (zero 32) [65536] (.start 0) (zero 92) .start
    (by decide)
  generalize decryptRun rfcPrims (zero 32) (keepalives (zero 32) [65536]) (.start 0)
    (transportInit (zero 92) .start) = s at *
  have hacc : s.1.map le = [65536] := hrun.1.trans (by decide)
  have htop : le s.2.2.rwCounterMax = 65536 := (congrArg State.top hrun.2).trans (by decide)
  have hctr : le (packetCounter (keepalivePacket (zero 32) (counterOf 65535))) = 65535 := by
    rw [packetCounter_keepalivePacket, le_counterOf (by omega)]
  have hfresh : fresh rfcPrims (zero 32) s.1 (keepalivePacket (zero 32) (counterOf 65535)) s.2.2 := by
    refine ⟨eligible_keepalivePacket _ (by omega), ?_, ?_⟩
    · rw [← mem_map_le, hctr, hacc]
      decide
    · rw [htop, hctr]
      omega
  intro h
  have hok := h hfresh
  rw [transportDecrypt_ok, accepts_eq, Bool.and_eq_true, hctr, admits_of_le (by
    change 65535 ≤ le s.2.2.rwCounterMax
    omega), Bool.and_eq_true] at hok
  have hreach := (reach_iff _ _).mp hok.2.1
  change 65535 ≤ le s.2.2.rwCounterMax ∧ le s.2.2.rwCounterMax / 65536 = _ ∧ _ at hreach
  omega

end C64WireGuard
