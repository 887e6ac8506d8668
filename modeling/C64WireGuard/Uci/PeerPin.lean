import C64WireGuard.Uci.Operations

/-!
# The socket and the peer

A connected socket has one destination for life, so `wg_peer` may only move when the socket is gone.
`Pinned` is the invariant: an open socket is the one that the last `UDP_CONNECT` returned, and that
command named the current peer. It holds in every state the program can reach, whatever the device
does (`reachable_pinned`).
-/

namespace C64WireGuard.Uci

open Bytes

variable {δ ω : Type} {S : Setup δ ω} {m m' : Machine (World δ ω)} {peer : Endpoint}
  {dest : Option Endpoint} {log es : List Access} {k k' : Socket}

/-! ## Endpoints and their commands -/

/-- The command of a connect denotes one endpoint. -/
theorem connectCommand_injective : Function.Injective connectCommand := by
  intro a b h
  simp only [connectCommand, List.cons_append, List.nil_append, List.cons.injEq, true_and] at h
  obtain ⟨hlow, hhigh, htext⟩ := h
  have hdotted : dotted a.ip = dotted b.ip := List.append_cancel_right htext
  have hip : a.ip = b.ip := by
    have ha := parseDecimalIp_dotted a.ip Ends.eof
    rw [hdotted, parseDecimalIp_dotted b.ip Ends.eof] at ha
    exact (Prod.mk.inj ha).1.symm
  have hport : a.port = b.port := by
    refine ext_byte fun i hi => ?_
    obtain rfl | rfl : i = 0 ∨ i = 1 := by omega
    · exact hhigh
    · exact hlow
  obtain ⟨ip, port⟩ := a
  obtain ⟨ip', port'⟩ := b
  rw [Endpoint.mk.injEq]
  exact ⟨hip, hport⟩

-- 10.0.0.2, port 51820: the cells hold the port high byte first, the command low byte first.
example : connectCommand ⟨#v[10, 0, 0, 2], #v[0xca, 0x6c]⟩ =
    [uciTargetNetwork, uciCmdUdpConnect, 0x6c, 0xca] ++
      [0x31, 0x30, 0x2e, 0x30, 0x2e, 0x30, 0x2e, 0x32, 0] := by decide +kernel

/-! ## The invariant -/

/-- A socket that is open is the one that was returned when `peer` was connected. -/
structure Pinned (peer : Endpoint) (log : List Access) (k : Socket) : Prop where
  between : Between log
  flag : k.Flag
  pin : k.isOpen ≠ 0 → k.id ≠ 0 ∧ (wire log).connection = some (connectCommand peer, some k.id)

/-- A write under the connection to `peer`, to the handle that was returned for it. -/
def Addressed (peer : Endpoint) (w : List UInt8 × Option Connection) : Prop :=
  ∃ id, id ≠ 0 ∧ WriteTo id w.1 ∧ w.2 = some (connectCommand peer, some id)

theorem WriteTo.isWrite {id : UInt8} {cmd : List UInt8} (h : WriteTo id cmd) : IsWrite cmd := by
  have hshort : cmd.take 2 = (cmd.take 3).take 2 := by
    rw [List.take_take]
    rfl
  unfold IsWrite
  rcases h with h | h
  · exact Or.inl (by rw [hshort, h]; rfl)
  · exact Or.inr (by rw [hshort, h]; rfl)

theorem IsWrite.not_isConnect {cmd : List UInt8} (h : IsWrite cmd) : ¬ IsConnect cmd := by
  unfold IsConnect
  rcases h with h | h
  · rw [h]
    decide
  · rw [h]
    decide

/-- An exchange that is neither a connect nor a write. -/
theorem wire_other {cmd : List UInt8} (hlog : Between log) (h : Exchange cmd es)
    (hconnect : ¬ IsConnect cmd) (hwrite : ¬ IsWrite cmd) : wire (log ++ es) = wire log := by
  obtain ⟨-, ⟨-, hsame⟩ | ⟨before, after, -, -, -, htake⟩⟩ := wire_exchange hlog h
  · exact hsame
  · rw [htake, Wire.take, if_neg hconnect, if_neg hwrite]

/-- **One step.** What is written is written to the peer. -/
theorem SocketStep.pinned (h : SocketStep dest k es k') (hdest : ∀ ep, dest = some ep → ep = peer)
    (hpinned : Pinned peer log k) :
    Pinned peer (log ++ es) k' ∧ ∃ sent, (wire (log ++ es)).writes = (wire log).writes ++ sent ∧
      (∀ w ∈ sent, Addressed peer w) ∧ (dest = none → sent = []) := by
  have hflag : k'.Flag := (SocketSteps.one h).flag hpinned.flag
  have hnone : (wire log).writes = (wire log).writes ++ [] := (List.append_nil _).symm
  cases h with
  | other exchange connect close write =>
    have hbetween := (wire_exchange hpinned.between exchange).1
    have hsame := wire_other hpinned.between exchange connect write
    exact ⟨⟨hbetween, hflag, by rw [hsame]; exact hpinned.pin⟩, [], by rw [hsame]; exact hnone,
      by simp, fun _ => rfl⟩
  | @write _ cmd _ isOpen allowed exchange target =>
    obtain ⟨hbetween, ⟨-, hsame⟩ | ⟨before, after, -, -, -, htake⟩⟩ :=
      wire_exchange hpinned.between exchange
    · exact ⟨⟨hbetween, hflag, by rw [hsame]; exact hpinned.pin⟩, [], by rw [hsame]; exact hnone,
        by simp, fun _ => rfl⟩
    · rw [Wire.take, if_neg target.isWrite.not_isConnect, if_pos target.isWrite] at htake
      obtain ⟨hid, hconnection⟩ := hpinned.pin isOpen
      refine ⟨⟨hbetween, hflag, by rw [htake]; exact hpinned.pin⟩,
        [(cmd, (wire log).connection)], by rw [htake], ?_, fun hc => ?_⟩
      · intro w hw
        rw [List.mem_singleton] at hw
        subst hw
        exact ⟨k.id, hid, target, hconnection⟩
      · rw [allowed] at hc
        cases hc
  | close isOpen exchange pushes =>
    have hsame := wire_other hpinned.between exchange (by simp [IsConnect, closeCommand]; decide)
      (by simp [IsWrite, closeCommand]; decide)
    exact ⟨⟨(wire_exchange hpinned.between exchange).1, hflag, fun hc => absurd rfl hc⟩, [],
      by rw [hsame]; exact hnone, by simp, fun _ => rfl⟩
  | @opened ep _ id closed allowed exchange pushes id_ne reply =>
    obtain ⟨hbetween, ⟨hsilent, -⟩ | ⟨before, after, hbefore, -, rfl, htake⟩⟩ :=
      wire_exchange hpinned.between exchange
    · rw [hsilent] at pushes
      cases pushes
    · have hconnect : IsConnect (connectCommand ep) := rfl
      rw [Wire.take, if_pos hconnect] at htake
      simp only [readsOf_append, hbefore.data, readsOf_commandWrites, readsOf_write,
        List.nil_append] at reply
      refine ⟨⟨hbetween, hflag, fun _ => ⟨id_ne, ?_⟩⟩, [], by rw [htake]; exact hnone, by simp,
        fun _ => rfl⟩
      rw [htake, reply, hdest ep allowed]
  | @refused ep _ id closed allowed exchange why =>
    obtain ⟨hbetween, ⟨-, hsame⟩ | ⟨before, after, -, -, -, htake⟩⟩ :=
      wire_exchange hpinned.between exchange
    · exact ⟨⟨hbetween, hflag, fun hc => absurd rfl hc⟩, [], by rw [hsame]; exact hnone, by simp,
        fun _ => rfl⟩
    · have hconnect : IsConnect (connectCommand ep) := rfl
      rw [Wire.take, if_pos hconnect] at htake
      exact ⟨⟨hbetween, hflag, fun hc => absurd rfl hc⟩, [], by rw [htake]; exact hnone, by simp,
        fun _ => rfl⟩
  | forget closed =>
    rw [List.append_nil]
    exact ⟨⟨hpinned.between, hflag, fun hc => absurd rfl hc⟩, [], hnone, by simp, fun _ => rfl⟩

/-- Steps in a row. -/
theorem SocketSteps.pinned (h : SocketSteps dest k es k')
    (hdest : ∀ ep, dest = some ep → ep = peer) (hpinned : Pinned peer log k) :
    Pinned peer (log ++ es) k' ∧ ∃ sent, (wire (log ++ es)).writes = (wire log).writes ++ sent ∧
      (∀ w ∈ sent, Addressed peer w) ∧ (dest = none → sent = []) := by
  induction h with
  | refl =>
    rw [List.append_nil]
    exact ⟨hpinned, [], (List.append_nil _).symm, by simp, fun _ => rfl⟩
  | tail _ step ih =>
    obtain ⟨hmid, sent, hsent, hall, hnone⟩ := ih
    obtain ⟨hend, more, hmore, hall', hnone'⟩ := step.pinned hdest hmid
    rw [List.append_assoc] at hend hmore
    refine ⟨hend, sent ++ more, by rw [hmore, hsent, List.append_assoc], ?_, fun hd => ?_⟩
    · intro w hw
      rcases List.mem_append.mp hw with hw | hw
      · exact hall w hw
      · exact hall' w hw
    · rw [hnone hd, hnone' hd]
      rfl

/-! ## Every reachable state -/

/-- A routine that leaves the peer alone. -/
theorem Stays.pinned {sends : Bool} (h : Stays sends m m') {s' : State δ}
    (hs' : m'.world.adapter = some s') :
    ∃ s, m.world.adapter = some s ∧ (Pinned m.wgPeer s.log s.mem.socket →
      Pinned m'.wgPeer s'.log s'.mem.socket ∧
      ∃ sent, (wire s'.log).writes = (wire s.log).writes ++ sent ∧
        ∀ w ∈ sent, Addressed m'.wgPeer w) := by
  obtain ⟨s, hs, hsteps⟩ := h.adapter s' hs'
  refine ⟨s, hs, fun hpinned => ?_⟩
  obtain ⟨es, hes, hsteps⟩ := hsteps hpinned.flag
  have hdest : ∀ ep, (if sends then some m.wgPeer else none) = some ep → ep = m.wgPeer := by
    intro ep hep
    split at hep
    · exact (Option.some.inj hep).symm
    · cases hep
  obtain ⟨hend, sent, hsent, hall, -⟩ := hsteps.pinned hdest hpinned
  rw [h.peer, hes]
  exact ⟨hend, sent, hsent, hall⟩

/-- A routine that may move it: the socket is gone by then, and nothing was written. -/
theorem Leaves.pinned (h : Leaves m m') {s' : State δ} (hs' : m'.world.adapter = some s') :
    ∃ s, m.world.adapter = some s ∧ (Pinned m.wgPeer s.log s.mem.socket →
      Pinned m'.wgPeer s'.log s'.mem.socket ∧ (wire s'.log).writes = (wire s.log).writes) := by
  obtain ⟨s, hs, hsteps⟩ := h.adapter s' hs'
  refine ⟨s, hs, fun hpinned => ?_⟩
  obtain ⟨es, hes, hsteps⟩ := hsteps hpinned.flag
  obtain ⟨hend, sent, hsent, -, hnone⟩ := hsteps.pinned (by simp) hpinned
  rw [hnone rfl, List.append_nil] at hsent
  rw [← hes] at hend hsent
  exact ⟨⟨hend.between, hend.flag, fun hopen => absurd (h.closed s' hs') hopen⟩, hsent⟩

theorem Goes.pinned (h : Goes m m') {s' : State δ} (hs' : m'.world.adapter = some s') :
    ∃ s, m.world.adapter = some s ∧ (Pinned m.wgPeer s.log s.mem.socket →
      Pinned m'.wgPeer s'.log s'.mem.socket ∧
      ∃ sent, (wire s'.log).writes = (wire s.log).writes ++ sent ∧
        ∀ w ∈ sent, Addressed m'.wgPeer w) := by
  rcases h with h | ⟨m₁, hleaves, hstays⟩
  · exact h.pinned hs'
  · obtain ⟨s₁, hs₁, hlast⟩ := hstays.pinned hs'
    obtain ⟨s, hs, hfirst⟩ := hleaves.pinned hs₁
    refine ⟨s, hs, fun hpinned => ?_⟩
    obtain ⟨hmid, hsame⟩ := hfirst hpinned
    obtain ⟨hend, sent, hsent, hall⟩ := hlast hmid
    exact ⟨hend, sent, by rw [hsent, hsame], hall⟩

/-- The invariant holds in every reachable state. -/
theorem Reachable.pinned (h : Reachable S m) {s : State δ} (hs : m.world.adapter = some s) :
    Pinned m.wgPeer s.log s.mem.socket := by
  induction h generalizing s with
  | start adapter =>
    rw [adapter] at hs
    cases hs
    exact ⟨rfl, Or.inl rfl, fun hopen => absurd rfl hopen⟩
  | operate _ o ih =>
    obtain ⟨s₀, hs₀, hstep⟩ := (operate_goes _ o).pinned hs
    exact (hstep (ih hs₀)).1
  | elsewhere _ peer adapter ih =>
    rw [peer]
    exact ih (adapter ▸ hs)

/-- **The connected socket always points at the current peer.** In every state that the program can
reach, with any device: an open socket has a handle other than 0, and it was returned to a
`UDP_CONNECT` that named `wg_peer`. What an operation then writes, it writes to `wg_peer` as the
operation leaves it, and never to handle 0. -/
theorem reachable_pinned (h : Reachable S m) {s : State δ} (hs : m.world.adapter = some s) :
    (s.mem.uciSocketOpen ≠ 0 → s.mem.uciSocketId ≠ 0 ∧
      (wire s.log).connection = some (connectCommand m.wgPeer, some s.mem.uciSocketId)) ∧
      ∀ o s', (operate S m o).world.adapter = some s' →
        ∃ sent, (wire s'.log).writes = (wire s.log).writes ++ sent ∧
          ∀ w ∈ sent, ∃ id, id ≠ 0 ∧ WriteTo id w.1 ∧
            w.2 = some (connectCommand (operate S m o).wgPeer, some id) := by
  refine ⟨(h.pinned hs).pin, fun o s' hs' => ?_⟩
  obtain ⟨s₀, hs₀, hstep⟩ := (operate_goes m o).pinned hs'
  obtain rfl : s₀ = s := Option.some.inj (hs₀.symm.trans hs)
  exact (hstep (h.pinned hs)).2

theorem reachable_pinned_sample :
    let s := sampleSent.world.adapter.get sampleSent_returns
    s.mem.uciSocketOpen ≠ 0 ∧
      (wire s.log).connection = some (connectCommand ⟨#v[10, 0, 0, 2], #v[0xca, 0x6c]⟩, some 7) := by
  have hopen : (sampleSent.world.adapter.get sampleSent_returns).mem.uciSocketOpen ≠ 0 := by
    decide +kernel
  have hid : (sampleSent.world.adapter.get sampleSent_returns).mem.uciSocketId = 7 := by
    decide +kernel
  have hpin := (reachable_pinned reachable_sampleSent (Option.some_get sampleSent_returns).symm).1
  have hpeer : sampleSent.wgPeer = ⟨#v[10, 0, 0, 2], #v[0xca, 0x6c]⟩ := by decide +kernel
  rw [hid, hpeer] at hpin
  exact ⟨hopen, (hpin hopen).2⟩

end C64WireGuard.Uci
