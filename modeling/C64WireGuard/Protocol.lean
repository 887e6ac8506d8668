import C64WireGuard.Lib.Trace
import C64WireGuard.Machine

/-!
# The session protocol

What the program is allowed to do, as a transition relation over the log of its calls. Some calls
oblige the next one: keys that were installed have their counters reset before anything else
happens, a state that is entered has its clock started, a session that is dropped has its socket
closed, and an expired session is dropped. `Phase` is what is owed.

The rest of the module reads properties of whole logs off the relation. Nothing here mentions a
cell; `Conformance` connects the protocol to the program.
-/

namespace C64WireGuard

open Bytes

/-! ## The transition relation -/

/-- What the protocol owes next. -/
inductive Phase
  | free
  | initiated (carry : Bool)
  | rejected
  | expired
  | installed
  | counting
  | entered
  | closing
  | built
deriving DecidableEq

/-- The protocol's view of the program: the obligation, `wg_state`, the keys of the last response
accepted, the next counter to send with, and when the clock of the current state was started. -/
structure Session where
  phase : Phase
  state : WgState
  keys : Option (Bytes 32 × Bytes 32)
  next : Nat
  started : Nat

/-- Before the first call. -/
def Session.start : Session where
  phase := .free
  state := .idle
  keys := none
  next := 0
  started := 0

/-- The key cells: all zero until a response is accepted. -/
def keyCells (keys : Option (Bytes 32 × Bytes 32)) : Bytes 32 × Bytes 32 :=
  keys.getD (zero 32, zero 32)

/-- A session that is 180 seconds old, but no older than the 16 bits the program compares, and whose
clock was not reset at midnight in between. -/
def Expired (started ticks : Nat) : Prop :=
  10800 ≤ ticks - started ∧ ticks - started < 65536 ∧ started / jiffyPeriod = ticks / jiffyPeriod

instance (started ticks : Nat) : Decidable (Expired started ticks) :=
  inferInstanceAs (Decidable (_ ∧ _ ∧ _))

/-- Events that never change or oblige anything. -/
inductive Event.Quiet : Event → Prop
  | printString (str : Str) : Event.Quiet (.printString str)
  | chrout (b : UInt8) : Event.Quiet (.chrout b)
  | netUdpClose : Event.Quiet .netUdpClose
  | cookieHandleType3 (cfgPeerPub : Bytes 32) (udp : UdpRecv) (ok : Bool) :
      Event.Quiet (.cookieHandleType3 cfgPeerPub udp ok)

/-- The phases in which the next thing is to drop the session. A session may also be dropped
freely. -/
inductive Phase.Drops : Phase → Prop
  | free : Phase.Drops .free
  | initiated : Phase.Drops (.initiated true)
  | rejected : Phase.Drops .rejected
  | expired : Phase.Drops .expired

/-- One call. Unless the protocol is `strict`, the test command may send without a live session. -/
inductive Session.Step (strict : Bool) : Session → Event → Session → Prop
  | quiet {s : Session} {e : Event} (hs : s.phase = .free) (he : e.Quiet) : Step strict s e s
  | initiate {s : Session} {dest : Endpoint} {pkt : List UInt8} {carry : Bool}
      (hs : s.phase = .free) (hpkt : pkt.head? = some 1) :
      Step strict s (.netUdpSend dest pkt carry) { s with phase := .initiated carry }
  | sent {s : Session} (hs : s.phase = .initiated false) :
      Step strict s (.setState .hsSent) { s with phase := .entered, state := .hsSent }
  | reject {s : Session} (hs : s.phase = .free) (hst : s.state = .hsSent) :
      Step strict s (.hsProcessResponse none) { s with phase := .rejected }
  | install {s : Session} {keys : Bytes 32 × Bytes 32} (hs : s.phase = .free)
      (hst : s.state = .hsSent) :
      Step strict s (.hsProcessResponse (some keys)) { s with phase := .installed, keys := some keys }
  | init {s : Session} (hs : s.phase = .installed) :
      Step strict s .transportInit { s with phase := .counting, next := 0 }
  | activate {s : Session} (hs : s.phase = .counting) :
      Step strict s (.setState .active) { s with phase := .entered, state := .active }
  | clock {s : Session} {ticks : Nat} (hs : s.phase = .entered) :
      Step strict s (.timerSessionStart ticks) { s with phase := .free, started := ticks }
  | encrypt {s : Session} {sender : Sender} {counter : Bytes 8} {ticks : Nat}
      (hs : s.phase = .free) (hsender : s.state = .active ∨ strict = false ∧ sender = .sendTest)
      (hctr : le counter = s.next) (hlt : s.next < 2 ^ 60) :
      Step strict s (.transportEncrypt sender s.state (keyCells s.keys).1 counter ticks)
        { s with phase := .built, next := s.next + 1 }
  | send {s : Session} {dest : Endpoint} {pkt : List UInt8} {carry : Bool}
      (hs : s.phase = .built) (hpkt : pkt.head? = some 4) :
      Step strict s (.netUdpSend dest pkt carry) { s with phase := .free }
  | decrypt {s : Session} {ok : Bool} {ticks : Nat} (hs : s.phase = .free)
      (hst : s.state = .active) :
      Step strict s (.transportDecrypt (keyCells s.keys).2 ok ticks) s
  | check {s : Session} {ticks : Nat} (hs : s.phase = .free)
      (hlive : ¬ (s.state = .active ∧ Expired s.started ticks)) : Step strict s (.timerCheck ticks) s
  | expire {s : Session} {ticks : Nat} (hs : s.phase = .free) (hst : s.state = .active)
      (hexp : Expired s.started ticks) :
      Step strict s (.timerCheck ticks) { s with phase := .expired }
  | drop {s : Session} (hs : s.phase.Drops) :
      Step strict s (.setState .idle) { s with phase := .closing, state := .idle }
  | close {s : Session} (hs : s.phase = .closing) : Step strict s .netUdpClose { s with phase := .free }

/-- A log the protocol allows, from the start. -/
abbrev Allowed (strict : Bool) (log : List Event) (s : Session) : Prop :=
  Follows (Session.Step strict) Session.start log s

variable {strict : Bool}

/-! ## What a log says by itself -/

/-- The keys of the newest accepted response. -/
def latestKeys : List Event → Option (Bytes 32 × Bytes 32)
  | [] => none
  | .hsProcessResponse (some keys) :: _ => some keys
  | _ :: log => latestKeys log

/-- The newest write of `wg_state`. -/
def latestState : List Event → WgState
  | [] => .idle
  | .setState s :: _ => s
  | _ :: log => latestState log

/-- The newest start of the session clock. -/
def latestStart : List Event → Nat
  | [] => 0
  | .timerSessionStart ticks :: _ => ticks
  | _ :: log => latestStart log

/-- The packets encrypted since the newest reset of the counters. -/
def encryptedSince : List Event → Nat
  | [] => 0
  | .transportInit :: _ => 0
  | .transportEncrypt .. :: log => encryptedSince log + 1
  | _ :: log => encryptedSince log

/-- The protocol's state is exactly what the log says. -/
theorem Allowed.summary {log : List Event} {s : Session} (h : Allowed strict log s) :
    s.keys = latestKeys log ∧ s.state = latestState log ∧ s.started = latestStart log ∧
      s.next = encryptedSince log := by
  induction h with
  | nil => exact ⟨rfl, rfl, rfl, rfl⟩
  | cons _ he ih =>
      obtain ⟨hk, hs, ht, hn⟩ := ih
      cases he with
      | quiet _ he => cases he <;> exact ⟨hk, hs, ht, hn⟩
      | initiate | reject | send | decrypt | check | expire | close => exact ⟨hk, hs, ht, hn⟩
      | sent | activate | drop => exact ⟨hk, rfl, ht, hn⟩
      | install => exact ⟨rfl, hs, ht, hn⟩
      | init => exact ⟨hk, hs, ht, rfl⟩
      | clock => exact ⟨hk, hs, rfl, hn⟩
      | encrypt => exact ⟨hk, hs, ht, congrArg (· + 1) hn⟩

/-! ## What is owed comes next -/

section Owed

variable {s t : Session} {e : Event}

theorem Session.Step.of_installed (h : s.Step strict e t) (hs : s.phase = .installed) :
    e = .transportInit := by
  cases h with
  | init => rfl
  | drop hd => exact absurd (hs ▸ hd) (by rintro ⟨⟩)
  | quiet hf | initiate hf | sent hf | reject hf | install hf | activate hf | clock hf
    | encrypt hf | send hf | decrypt hf | check hf | expire hf | close hf =>
      exact absurd (hf.symm.trans hs) (by decide)

theorem Session.Step.of_entered (h : s.Step strict e t) (hs : s.phase = .entered) :
    ∃ ticks, e = .timerSessionStart ticks := by
  cases h with
  | clock => exact ⟨_, rfl⟩
  | drop hd => exact absurd (hs ▸ hd) (by rintro ⟨⟩)
  | quiet hf | initiate hf | sent hf | reject hf | install hf | init hf | activate hf
    | encrypt hf | send hf | decrypt hf | check hf | expire hf | close hf =>
      exact absurd (hf.symm.trans hs) (by decide)

theorem Session.Step.of_closing (h : s.Step strict e t) (hs : s.phase = .closing) :
    e = .netUdpClose := by
  cases h with
  | close => rfl
  | drop hd => exact absurd (hs ▸ hd) (by rintro ⟨⟩)
  | quiet hf | initiate hf | sent hf | reject hf | install hf | init hf | activate hf | clock hf
    | encrypt hf | send hf | decrypt hf | check hf | expire hf =>
      exact absurd (hf.symm.trans hs) (by decide)

theorem Session.Step.of_expired (h : s.Step strict e t) (hs : s.phase = .expired) :
    e = .setState .idle := by
  cases h with
  | drop => rfl
  | quiet hf | initiate hf | sent hf | reject hf | install hf | init hf | activate hf | clock hf
    | encrypt hf | send hf | decrypt hf | check hf | expire hf | close hf =>
      exact absurd (hf.symm.trans hs) (by decide)

end Owed

/-! ## What is owed was caused by the newest call -/

theorem Allowed.of_built {log : List Event} {s : Session} (h : Allowed strict log s)
    (hs : s.phase = .built) :
    ∃ sender key counter ticks older,
      log = .transportEncrypt sender s.state key counter ticks :: older := by
  cases h with
  | nil => cases hs
  | cons _ he =>
      cases he with
      | encrypt => exact ⟨_, _, _, _, _, rfl⟩
      | quiet hf | decrypt hf | check hf => exact absurd (hf.symm.trans hs) (by decide)
      | initiate | sent | reject | install | init | activate | clock | send | expire | drop | close =>
          cases hs

theorem Allowed.of_initiated {log : List Event} {s : Session} {carry : Bool} (h : Allowed strict log s)
    (hs : s.phase = .initiated carry) :
    ∃ dest pkt older, log = .netUdpSend dest pkt carry :: older ∧ pkt.head? = some 1 := by
  cases h with
  | nil => cases hs
  | cons _ he =>
      cases he with
      | initiate hf hpkt => cases hs; exact ⟨_, _, _, rfl, hpkt⟩
      | quiet hf | decrypt hf | check hf => exact absurd (hf.symm.trans hs) (by simp)
      | sent | reject | install | init | activate | clock | encrypt | send | expire | drop | close =>
          cases hs

theorem Allowed.of_installed {log : List Event} {s : Session} (h : Allowed strict log s)
    (hs : s.phase = .installed) :
    ∃ keys older, log = .hsProcessResponse (some keys) :: older ∧ latestState older = .hsSent := by
  cases h with
  | nil => cases hs
  | cons h he =>
      cases he with
      | install hf hst => exact ⟨_, _, rfl, (Allowed.summary h).2.1.symm.trans hst⟩
      | quiet hf | decrypt hf | check hf => exact absurd (hf.symm.trans hs) (by decide)
      | initiate | sent | reject | init | activate | clock | encrypt | send | expire | drop | close =>
          cases hs

theorem Allowed.of_counting {log : List Event} {s : Session} (h : Allowed strict log s)
    (hs : s.phase = .counting) :
    ∃ keys older, log = .transportInit :: .hsProcessResponse (some keys) :: older ∧
      latestState older = .hsSent := by
  cases h with
  | nil => cases hs
  | cons h he =>
      cases he with
      | init hf =>
          obtain ⟨keys, older, rfl, hst⟩ := Allowed.of_installed h hf
          exact ⟨keys, older, rfl, hst⟩
      | quiet hf | decrypt hf | check hf => exact absurd (hf.symm.trans hs) (by decide)
      | initiate | sent | reject | install | activate | clock | encrypt | send | expire | drop
        | close => cases hs

/-! ## Sending and receiving -/

section Logs

variable {log newer older : List Event} {s : Session}

/-- Calls that always leave something owed. -/
inductive Event.Obliges : Event → Prop
  | setState (state : WgState) : Event.Obliges (.setState state)
  | hsProcessResponse (keys : Option (Bytes 32 × Bytes 32)) :
      Event.Obliges (.hsProcessResponse keys)

/-- They are not the newest call of a log that owes nothing. -/
theorem Allowed.ne_nil {e : Event} (h : Allowed strict (newer ++ e :: older) s)
    (hs : s.phase = .free) (he : e.Obliges) : newer ≠ [] := by
  rintro rfl
  obtain ⟨u, -, hstep⟩ := Follows.cons_inv h
  cases he with
  | setState =>
      cases hstep with
      | quiet _ he => cases he
      | sent | activate | drop => cases hs
  | hsProcessResponse =>
      cases hstep with
      | quiet _ he => cases he
      | reject | install => cases hs

/-- A packet is encrypted under the newest keys and the next counter, and outside a live session
only by the test command. -/
theorem Allowed.encrypt {sender : Sender} {state : WgState} {key : Bytes 32} {counter : Bytes 8}
    {ticks : Nat}
    (h : Allowed strict (newer ++ .transportEncrypt sender state key counter ticks :: older) s) :
    state = latestState older ∧ (state = .active ∨ strict = false ∧ sender = .sendTest) ∧
      key = (keyCells (latestKeys older)).1 ∧ le counter = encryptedSince older ∧
      le counter < 2 ^ 60 := by
  obtain ⟨u, v, hu, he, -⟩ := h.split
  obtain ⟨hk, hst, -, hn⟩ := Allowed.summary hu
  cases he with
  | quiet _ he => cases he
  | encrypt _ hsender hctr hlt =>
      exact ⟨hst, hsender, by rw [hk], hctr.trans hn, hctr ▸ hlt⟩

/-- A packet is decrypted in a live session, under the newest keys. -/
theorem Allowed.decrypt {key : Bytes 32} {ok : Bool} {ticks : Nat}
    (h : Allowed strict (newer ++ .transportDecrypt key ok ticks :: older) s) :
    latestState older = .active ∧ key = (keyCells (latestKeys older)).2 := by
  obtain ⟨u, v, hu, he, -⟩ := h.split
  obtain ⟨hk, hst, -⟩ := Allowed.summary hu
  cases he with
  | quiet _ he => cases he
  | decrypt _ hactive => exact ⟨hst.symm.trans hactive, by rw [hk]⟩

/-- Counters only grow until the next response is accepted. -/
theorem Allowed.encrypt_encrypt {sender sender' : Sender} {state state' : WgState}
    {key key' : Bytes 32} {counter counter' : Bytes 8} {ticks ticks' : Nat} {between : List Event}
    (h : Allowed strict (newer ++ .transportEncrypt sender' state' key' counter' ticks' ::
      (between ++ .transportEncrypt sender state key counter ticks :: older)) s)
    (hbetween : ∀ keys, .hsProcessResponse (some keys) ∉ between) :
    key' = key ∧ le counter < le counter' := by
  obtain ⟨u', v', hu', he', -⟩ := h.split
  obtain ⟨u, v, hu, he, hv⟩ := hu'.split
  cases he with
  | quiet _ he => cases he
  | encrypt hs hsender hctr hlt =>
      have hinv : u'.phase ≠ .installed ∧ u'.phase ≠ .counting ∧ u.next + 1 ≤ u'.next ∧
          u'.keys = u.keys := by
        refine hv.invariant
          (P := fun w => w.phase ≠ .installed ∧ w.phase ≠ .counting ∧ u.next + 1 ≤ w.next ∧
            w.keys = u.keys)
          (Q := fun e => ∀ keys, e ≠ .hsProcessResponse (some keys)) ?_
          ⟨by simp, by simp, Nat.le_refl _, rfl⟩ ?_
        · rintro w e w' ⟨h₁, h₂, h₃, h₄⟩ hq hstep
          cases hstep with
          | quiet | decrypt | check => exact ⟨h₁, h₂, h₃, h₄⟩
          | initiate | sent | reject | activate | clock | send | expire | drop | close =>
              exact ⟨by simp, by simp, h₃, h₄⟩
          | encrypt => exact ⟨by simp, by simp, Nat.le_succ_of_le h₃, h₄⟩
          | install => exact absurd rfl (hq _)
          | init hs => exact absurd hs h₁
        · rintro e he keys rfl
          exact hbetween keys he
      cases he' with
      | quiet _ he => cases he
      | encrypt hs' _ hctr' _ =>
          refine ⟨by rw [hinv.2.2.2], ?_⟩
          rw [hctr, hctr']
          exact hinv.2.2.1

/-- The counters are reset right after keys are installed. -/
theorem Allowed.install {keys : Bytes 32 × Bytes 32}
    (h : Allowed strict (newer ++ .hsProcessResponse (some keys) :: older) s)
    (hs : s.phase = .free) : ∃ newer', newer = newer' ++ [.transportInit] := by
  have hne := h.ne_nil hs (.hsProcessResponse _)
  obtain ⟨u, v, -, he, hv⟩ := h.split
  obtain ⟨newer', e, w, rfl, hw, -⟩ := hv.oldest hne
  cases he with
  | quiet _ he => cases he
  | install => exact ⟨newer', by rw [hw.of_installed rfl]⟩

/-- A Type 4 packet that goes out is the one that was just encrypted. -/
theorem Allowed.send {dest : Endpoint} {pkt : List UInt8} {carry : Bool}
    (h : Allowed strict (newer ++ .netUdpSend dest pkt carry :: older) s) (hpkt : pkt.head? = some 4) :
    ∃ sender state key counter ticks older',
      older = .transportEncrypt sender state key counter ticks :: older' := by
  obtain ⟨u, v, hu, he, -⟩ := h.split
  cases he with
  | quiet _ he => cases he
  | initiate _ hpkt' => exact absurd (hpkt'.symm.trans hpkt) (by decide)
  | send hs =>
      obtain ⟨sender, key, counter, ticks, older', rfl⟩ := Allowed.of_built hu hs
      exact ⟨_, _, _, _, _, _, rfl⟩

/-! ## States -/

/-- Nothing that is owed comes with keys missing. -/
theorem Allowed.active_keys (h : Allowed strict log s) (hs : latestState log = .active) :
    latestKeys log ≠ none := by
  have hinv : s.state = .active ∨ s.phase = .installed ∨ s.phase = .counting → s.keys ≠ none := by
    refine h.invariant
      (P := fun w => w.state = .active ∨ w.phase = .installed ∨ w.phase = .counting →
        w.keys ≠ none)
      (Q := fun _ => True) ?_ (by rintro (h | h | h) <;> cases h) (fun _ _ => trivial)
    intro w e w' hw _ hstep
    cases hstep with
    | quiet | decrypt | check => exact hw
    | initiate | reject | encrypt | send | expire | clock | close =>
        rintro (h | h | h)
        · exact hw (.inl h)
        · cases h
        · cases h
    | sent | drop => rintro (h | h | h) <;> cases h
    | install => exact fun _ => by simp
    | init hs => exact fun _ => hw (.inr (.inl hs))
    | activate hs => exact fun _ => hw (.inr (.inr hs))
  obtain ⟨hk, hst, -⟩ := Allowed.summary h
  rw [← hk]
  exact hinv (.inl (hst.trans hs))

/-- `HS_SENT` is entered right after a Type 1 packet went out. -/
theorem Allowed.to_hsSent (h : Allowed strict (newer ++ .setState .hsSent :: older) s) :
    ∃ dest pkt older', older = .netUdpSend dest pkt false :: older' ∧ pkt.head? = some 1 := by
  obtain ⟨u, v, hu, he, -⟩ := h.split
  cases he with
  | quiet _ he => cases he
  | sent hs => exact Allowed.of_initiated hu hs

/-- `ACTIVE` is entered from `HS_SENT` right after a response was accepted and the counters were
reset, and its clock is started. -/
theorem Allowed.to_active (h : Allowed strict (newer ++ .setState .active :: older) s)
    (hs : s.phase = .free) :
    ∃ keys older' newer' ticks,
      older = .transportInit :: .hsProcessResponse (some keys) :: older' ∧
      latestState older' = .hsSent ∧ newer = newer' ++ [.timerSessionStart ticks] := by
  have hne := h.ne_nil hs (.setState _)
  obtain ⟨u, v, hu, he, hv⟩ := h.split
  obtain ⟨newer', e, w, rfl, hw, -⟩ := hv.oldest hne
  cases he with
  | quiet _ he => cases he
  | activate hs =>
      obtain ⟨keys, older', holder, hst⟩ := Allowed.of_counting hu hs
      obtain ⟨ticks, rfl⟩ := hw.of_entered rfl
      exact ⟨keys, older', newer', ticks, holder, hst, rfl⟩

/-- A session that is dropped has its socket closed. -/
theorem Allowed.to_idle (h : Allowed strict (newer ++ .setState .idle :: older) s)
    (hs : s.phase = .free) : ∃ newer', newer = newer' ++ [.netUdpClose] := by
  have hne := h.ne_nil hs (.setState _)
  obtain ⟨u, v, hu, he, hv⟩ := h.split
  obtain ⟨newer', e, w, rfl, hw, -⟩ := hv.oldest hne
  cases he with
  | quiet _ he => cases he
  | drop => exact ⟨newer', by rw [hw.of_closing rfl]⟩

/-! ## Lifetime -/

/-- A use of a live session at a time: a packet accepted, or one built by anything but the test
command. -/
inductive Event.Uses (ticks : Nat) : Event → Prop
  | decrypt (key : Bytes 32) : Event.Uses ticks (.transportDecrypt key true ticks)
  | encrypt {sender : Sender} (hsender : sender ≠ .sendTest) (state : WgState) (key : Bytes 32)
      (counter : Bytes 8) : Event.Uses ticks (.transportEncrypt sender state key counter ticks)

/-- Without a start of the clock a session never gets out of being dropped or entered. -/
theorem Session.Step.not_live {s t : Session} {e : Event} (h : s.Step strict e t)
    (he : ∀ ticks, e ≠ .timerSessionStart ticks)
    (hs : s.state = .active → s.phase = .expired ∨ s.phase = .entered) :
    t.state = .active → t.phase = .expired ∨ t.phase = .entered := by
  cases h with
  | quiet | decrypt | check => exact hs
  | clock => exact absurd rfl (he _)
  | activate => exact fun _ => .inr rfl
  | sent | drop => intro hst; cases hst
  | initiate hf | reject hf | install hf | encrypt hf | expire hf | init hf | send hf | close hf =>
      intro hst
      rcases hs hst with h' | h' <;> exact absurd (hf.symm.trans h') (by decide)

/-- Nor is it used. -/
theorem Session.Step.not_uses {s t : Session} {e : Event} {ticks : Nat} (h : s.Step strict e t)
    (he : e.Uses ticks) :
    ¬ (s.state = .active → s.phase = .expired ∨ s.phase = .entered) := by
  intro hs
  cases he with
  | decrypt =>
      cases h with
      | quiet _ he => cases he
      | decrypt hf hst => rcases hs hst with h' | h' <;> exact absurd (hf.symm.trans h') (by decide)
  | encrypt hsender =>
      cases h with
      | quiet _ he => cases he
      | encrypt hf hst =>
          rcases hs (hst.resolve_right fun hc => hsender hc.2) with h' | h' <;>
            exact absurd (hf.symm.trans h') (by decide)

/-- A check that finds the session expired drops it, and it is not used until another is started. -/
theorem Allowed.expired {ticks : Nat}
    (h : Allowed strict (newer ++ .timerCheck ticks :: older) s) (hs : s.phase = .free)
    (hst : latestState older = .active) (hexp : Expired (latestStart older) ticks) :
    (∃ newer', newer = newer' ++ [.netUdpClose, .setState .idle]) ∧
      ∀ post between use t, newer = post ++ use :: between → use.Uses t →
        ∃ t', .timerSessionStart t' ∈ between := by
  obtain ⟨u, v, hu, he, hv⟩ := h.split
  obtain ⟨-, hst', hstart, -⟩ := Allowed.summary hu
  rw [← hst'] at hst
  rw [← hstart] at hexp
  cases he with
  | quiet _ he => cases he
  | check _ hlive => exact absurd ⟨hst, hexp⟩ hlive
  | expire =>
      have hne : newer ≠ [] := by
        rintro rfl
        cases hv
        cases hs
      obtain ⟨newer', e, w, rfl, hw, -⟩ := hv.oldest hne
      obtain rfl := hw.of_expired rfl
      refine ⟨?_, fun post between use t heq huse => ?_⟩
      · rw [List.append_assoc, List.singleton_append] at h
        obtain ⟨newer'', rfl⟩ := Allowed.to_idle h hs
        exact ⟨newer'', by rw [List.append_assoc, List.singleton_append]⟩
      · rw [heq] at hv
        obtain ⟨x, y, hx, hy, -⟩ := hv.split
        by_contra hno
        have hlive := hx.invariant
          (P := fun w => w.state = .active → w.phase = .expired ∨ w.phase = .entered)
          (Q := fun e => ∀ ticks, e ≠ .timerSessionStart ticks)
          (fun hp hq hstep => hstep.not_live hq hp) (fun _ => .inl rfl)
          (by
            rintro e he ticks rfl
            exact hno ⟨ticks, he⟩)
        exact hy.not_uses huse hlive

end Logs

end C64WireGuard
