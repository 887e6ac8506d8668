import C64WireGuard.Ip65.Send
import C64WireGuard.Rfc
import C64WireGuard.WorldInvariant

/-!
# Who owns the listener

The blob's table of listeners and the adapter's idea of it are two. `Status` is what they should both
say: no listen has succeeded yet, the listener is held, or a close or a fresh stack has released it.
Every entry point of the adapter takes a state that `Tracks` a status to one that tracks the next
(`netInit_tracks` and its fellows), and the program calls nothing else.
-/

namespace C64WireGuard.Ip65

open Alu Bytes

variable {β ω : Type}

/-! ## The program on this adapter -/

/-- `wg_default_port`. -/
def wgDefaultPort : Cell16 := .ofNat 51820

/-- The adapter with its blob, unless a call is still running, and what else there is. -/
structure World (β ω : Type) where
  adapter : Option (State β)
  rest : ω

/-- What the program is linked and run with: the crypto library, the constants of the build, the
KERNAL, the adapter's own setting, the address of a packet to send, and the rounds that a send is
waited for. -/
structure Setup (β ω : Type) where
  prims : Primitives
  build : Build
  host : Host ω
  setting : Setting β
  packetAt : List UInt8 → Nat
  fuel : Nat

/-- A call of the adapter, and its carry. One that has not returned leaves no adapter at all, and
nothing is said about what comes after it. -/
def call (fuel : Nat) (p : Prog (State β) Bool) (w : World β ω) : World β ω × Bool :=
  match w.adapter.bind (p.run fuel) with
  | some (c, s) => ({ w with adapter := some s }, c)
  | none => ({ w with adapter := none }, true)

/-- An entry point that always returns. -/
def entry (f : State β → State β × Bool) : Prog (State β) Bool := .act fun s => ((f s).2, (f s).1)

/-- The memory with `bs` at `a`. -/
def placeRam (a : Nat) (bs : List UInt8) (ram : Nat → UInt8) : Nat → UInt8 :=
  fun i => if a ≤ i then bs.getD (i - a) (ram i) else ram i

/-- The receive cells, on their way in. -/
def stageRecv (L : Layout) (udp : UdpRecv) (m : Ip65Mem) : Ip65Mem :=
  { m with
    ram := placeRam L.udpRecvBuf udp.udpRecvBuf.toList m.ram
    udpRecvLen := .ofNat udp.udpRecvLen
    udpRecvSrc := udp.udpRecvSrc
    udpRecvReady := if udp.udpRecvReady then 1 else 0 }

/-- The receive cells, on their way out. -/
def recvCells (L : Layout) (m : Ip65Mem) : UdpRecv where
  udpRecvBuf := .ofFn fun i => m.ram (L.udpRecvBuf + i)
  udpRecvLen := min m.udpRecvLen.toNat udpRecvBufSize
  udpRecvLen_le := min_le_right _ _
  udpRecvSrc := m.udpRecvSrc
  udpRecvReady := decide (m.udpRecvReady ≠ 0)

/-- `wg_local_port`, as `do_net_init` stages it, and the listen. -/
def listenDefault (s : State β) : State β × Bool :=
  netUdpListen (s.edit fun m => { m with wgLocalPort := wgDefaultPort })

/-- Write the adapter's cells. -/
def World.edit (f : Ip65Mem → Ip65Mem) (w : World β ω) : World β ω :=
  { w with adapter := w.adapter.map (State.edit f) }

/-- The adapter behind `net_abi.inc`. -/
def Setup.net (S : Setup β ω) : NetBackend (World β ω) where
  netInit w := call S.fuel (entry (netInit S.setting)) w
  netDhcpAcquire w := call S.fuel (entry (netDhcpAcquire S.setting)) w
  netUdpListen w := call S.fuel (entry listenDefault) w
  netPoll _ udp w :=
    let r := call S.fuel (entry (netPoll S.setting)) (w.edit (stageRecv S.setting.layout udp))
    (r.1, (r.1.adapter.map fun s => recvCells S.setting.layout s.mem).getD udp)
  netUdpSend dest pkt w :=
    call S.fuel (netUdpSend S.setting dest (S.packetAt pkt) (.ofNat pkt.length))
      (w.edit fun m => { m with ram := placeRam (S.packetAt pkt) pkt m.ram })
  netUdpClose w := (call S.fuel (entry netUdpClose) w).1
  netLastError w := (w.adapter.map fun s => s.mem.netLastError).getD 0

/-- The KERNAL and the chips, which know nothing of the adapter. -/
def Setup.kernal (S : Setup β ω) : Host (World β ω) where
  elapse w := ({ w with rest := (S.host.elapse w.rest).1 }, (S.host.elapse w.rest).2)
  readReg r w := ({ w with rest := (S.host.readReg r w.rest).1 }, (S.host.readReg r w.rest).2)
  getin w := ({ w with rest := (S.host.getin w.rest).1 }, (S.host.getin w.rest).2)
  getinLine w := ({ w with rest := (S.host.getinLine w.rest).1 }, (S.host.getinLine w.rest).2)
  readConfig w := ({ w with rest := (S.host.readConfig w.rest).1 }, (S.host.readConfig w.rest).2)

/-- The program on this adapter. -/
def Setup.env (S : Setup β ω) : Env (World β ω) where
  prims := S.prims
  net := S.net
  host := S.kernal
  build := S.build

/-! ## The status of the listener -/

/-- Whether a listen has succeeded, and whether a close or a fresh stack has come since. -/
inductive Status
  | never
  | held
  | released
deriving DecidableEq

/-- The listener, if there was one, is gone. -/
def Status.drop : Status → Status
  | .never => .never
  | _ => .released

/-- A send listens again. -/
def Status.reclaim : Status → Status
  | .never => .never
  | _ => .held

/-- An attempt to send is made with the listener registered. Other events are of no concern. -/
def Event.Registered : Event → Prop
  | .attempt registered _ _ => registered = true
  | _ => True

/-- Every attempt that follows a successful listen is made with the listener registered. -/
def SendsRegistered (log : List Event) : Prop :=
  log.Pairwise fun e e' => e' = .listen false → e.Registered

/-- The log of an adapter with this status. -/
structure Logged (st : Status) (log : List Event) : Prop where
  closes : .close true ∉ log
  listened : .listen false ∈ log → st ≠ .never
  sends : SendsRegistered log

/-- The cells, the table and the log are as the status says. -/
structure Tracks (st : Status) (s : State β) : Prop where
  listening : s.mem.ip65Listening = if st = .held then 1 else 0
  ports : s.table.ports = if st = .held then [wgDefaultPort] else []
  listenPort : s.mem.ip65ListenPort = if st = .never then .ofNat 0 else wgDefaultPort
  localPort : st ≠ .never → s.mem.wgLocalPort = wgDefaultPort
  logged : Logged st s.log

/-! ## The log -/

theorem Logged.cons {st : Status} {log : List Event} (h : Logged st log) {e : Event}
    (hclose : e ≠ .close true) (hlisten : e ≠ .listen false) (hsend : st ≠ .never → e.Registered) :
    Logged st (e :: log) where
  closes hmem := by
    rcases List.mem_cons.mp hmem with heq | hmem
    · exact hclose heq.symm
    · exact h.closes hmem
  listened hmem := by
    rcases List.mem_cons.mp hmem with heq | hmem
    · exact absurd heq.symm hlisten
    · exact h.listened hmem
  sends := by
    refine List.pairwise_cons.mpr ⟨fun e' he' heq => ?_, h.sends⟩
    exact hsend (h.listened (heq ▸ he'))

/-- A successful listen makes the status something else than `never`. -/
theorem Logged.listen {st st' : Status} {log : List Event} (h : Logged st log) (hst' : st' ≠ .never) :
    Logged st' (.listen false :: log) where
  closes hmem := by
    rcases List.mem_cons.mp hmem with heq | hmem
    · exact nomatch heq
    · exact h.closes hmem
  listened _ := hst'
  sends := List.pairwise_cons.mpr ⟨fun _ _ _ => trivial, h.sends⟩

theorem Logged.mono {st st' : Status} {log : List Event} (h : Logged st log)
    (hst : st ≠ .never → st' ≠ .never) : Logged st' log :=
  ⟨h.closes, fun hmem => hst (h.listened hmem), h.sends⟩

/-! ## The entry points -/

/-- The cells that the listener's bookkeeping is about. -/
def Ip65Mem.owner (m : Ip65Mem) : UInt8 × Cell16 × Cell16 :=
  (m.ip65Listening, m.ip65ListenPort, m.wgLocalPort)

variable {S : Setting β} {st : Status} {s s' : State β}

/-- Changes elsewhere. -/
theorem Tracks.frame (h : Tracks st s) (howner : s'.mem.owner = s.mem.owner)
    (htable : s'.table = s.table) (hlogged : Logged st s'.log) : Tracks st s' := by
  unfold Ip65Mem.owner at howner
  rw [Prod.mk.injEq, Prod.mk.injEq] at howner
  obtain ⟨hlistening, hlistenPort, hlocalPort⟩ := howner
  exact ⟨hlistening.trans h.listening, htable ▸ h.ports, hlistenPort.trans h.listenPort,
    fun hst => hlocalPort.trans (h.localPort hst), hlogged⟩

theorem netInit_tracks (S : Setting β) (h : Tracks st s) : Tracks st.drop (netInit S s).1 := by
  have hlogged : Logged st.drop s.log := h.logged.mono (by cases st <;> decide)
  have hport : s.mem.ip65ListenPort = if st.drop = .never then .ofNat 0 else wgDefaultPort := by
    rw [h.listenPort]
    cases st <;> rfl
  have hlocal : st.drop ≠ .never → s.mem.wgLocalPort = wgDefaultPort := by
    cases st with
    | never => exact fun hne => absurd rfl hne
    | held => exact fun _ => h.localPort (by decide)
    | released => exact fun _ => h.localPort (by decide)
  have hdrop : st.drop ≠ .held := by cases st <;> decide
  rw [netInit]
  split
  · exact ⟨(if_neg hdrop).symm, (if_neg hdrop).symm, hport, hlocal, hlogged⟩
  · exact ⟨(if_neg hdrop).symm, (if_neg hdrop).symm, hport, hlocal, hlogged⟩

theorem netDhcpAcquire_tracks (S : Setting β) (h : Tracks st s) :
    Tracks st (netDhcpAcquire S s).1 := by
  rw [netDhcpAcquire]
  split
  · exact h.frame rfl rfl h.logged
  · exact h.frame rfl rfl h.logged

/-- What the blob delivers does not touch the listener's cells. -/
theorem process_tracks (S : Setting β) (h : Tracks st s) : Tracks st (process S s) := by
  have hcallback : ∀ m, (netUdpRecvCb S.layout m).owner = m.owner := by
    intro m
    rw [netUdpRecvCb]
    dsimp only
    split_ifs
    all_goals rfl
  have hfold : ∀ (inps : List (Nat → UInt8)) (m : Ip65Mem),
      (inps.foldl (deliver S.layout) m).owner = m.owner := by
    intro inps
    induction inps with
    | nil => exact fun _ => rfl
    | cons inp inps ih =>
      intro m
      rw [List.foldl_cons, ih, deliver, hcallback]
      rfl
  exact h.frame (hfold _ _) rfl h.logged

theorem netPoll_tracks (S : Setting β) (h : Tracks st s) : Tracks st (netPoll S s).1 :=
  process_tracks S h

/-- A listen on the default port succeeds, unless the listener is held already. -/
theorem netUdpListen_tracks (h : Tracks st s) (hlocal : s.mem.wgLocalPort = wgDefaultPort) :
    Tracks .held (netUdpListen s).1 ∧ (netUdpListen s).2 = decide (st = .held) := by
  by_cases hst : st = .held
  · subst hst
    have hadd : s.table.add s.mem.wgLocalPort = (s.table, true) := by
      rw [hlocal, ListenerTable.add, dif_pos]
      exact .inl (by rw [h.ports]; exact List.mem_singleton.mpr rfl)
    rw [netUdpListen, hadd]
    exact ⟨h.frame rfl rfl (h.logged.cons (by simp) (by simp) fun _ => trivial),
      rfl⟩
  · have hports : s.table.ports = [] := h.ports.trans (if_neg hst)
    obtain ⟨t, hadd, ht⟩ : ∃ t, s.table.add s.mem.wgLocalPort = (t, false) ∧
        t.ports = [wgDefaultPort] := by
      rw [hlocal, ListenerTable.add, dif_neg]
      · exact ⟨_, rfl, congrArg (wgDefaultPort :: ·) hports⟩
      · rw [hports]
        exact fun h => h.elim List.not_mem_nil (by decide)
    rw [netUdpListen, hadd]
    exact ⟨⟨rfl, ht, hlocal, fun _ => hlocal, h.logged.listen (by decide)⟩,
      (decide_eq_false hst).symm⟩

theorem netUdpListen_log (s : State β) : ∃ es, (netUdpListen s).1.log = es ++ s.log := by
  rw [netUdpListen]
  split
  · exact ⟨[_], rfl⟩
  · exact ⟨[_], rfl⟩

theorem listenDefault_tracks (h : Tracks st s) : Tracks .held (listenDefault s).1 := by
  have hstaged : Tracks st (s.edit fun m => { m with wgLocalPort := wgDefaultPort }) :=
    ⟨h.listening, h.ports, h.listenPort, fun _ => rfl, h.logged⟩
  exact (netUdpListen_tracks hstaged rfl).1

/-- **A close does not fail.** -/
theorem netUdpClose_tracks (h : Tracks st s) :
    Tracks st.drop (netUdpClose s).1 ∧ (netUdpClose s).2 = false := by
  by_cases hst : st = .held
  · subst hst
    have hremove : ∃ t, s.table.remove s.mem.ip65ListenPort = (t, false) ∧ t.ports = [] := by
      have hport : s.mem.ip65ListenPort = wgDefaultPort := h.listenPort
      have hports : s.table.ports = [wgDefaultPort] := h.ports
      rw [hport, ListenerTable.remove, if_pos (by rw [hports]; exact List.mem_singleton.mpr rfl)]
      have herase : s.table.ports.erase wgDefaultPort = [] := by
        rw [hports]
        decide
      exact ⟨_, rfl, herase⟩
    obtain ⟨t, hremove, ht⟩ := hremove
    have hlistening : s.mem.ip65Listening ≠ 0 := by
      rw [h.listening]
      decide
    rw [netUdpClose, if_neg hlistening, hremove]
    refine ⟨⟨rfl, ht, h.listenPort, fun _ => h.localPort (by decide), ?_⟩, rfl⟩
    exact (h.logged.mono fun _ => by decide).cons (by simp) (by simp)
      fun _ => trivial
  · have hlistening : s.mem.ip65Listening = 0 := h.listening.trans (if_neg hst)
    have hdrop : st.drop = st := by
      cases st with
      | never => rfl
      | held => exact absurd rfl hst
      | released => rfl
    rw [netUdpClose, if_pos hlistening, hdrop]
    exact ⟨h, rfl⟩

/-! ## Sending -/

/-- The listener stays as it is and the log grows, unless the listener was released: then a send has
to listen first. -/
def Tends (s s' : State β) : Prop :=
  (∃ es, s'.log = es ++ s.log) ∧ ∀ st, st ≠ .released → Tracks st s → Tracks st s'

instance : IsPreorder (State β) Tends where
  refl _ := ⟨⟨[], rfl⟩, fun _ _ h => h⟩
  trans _ _ _ h₁ h₂ := by
    obtain ⟨⟨es₁, hes₁⟩, htracks₁⟩ := h₁
    obtain ⟨⟨es₂, hes₂⟩, htracks₂⟩ := h₂
    refine ⟨⟨es₂ ++ es₁, ?_⟩, fun st hst h => htracks₂ st hst (htracks₁ st hst h)⟩
    rw [hes₂, hes₁, List.append_assoc]

theorem Tends.quiet (howner : s'.mem.owner = s.mem.owner) (htable : s'.table = s.table)
    (hlog : s'.log = s.log) : Tends s s' :=
  ⟨⟨[], hlog⟩, fun _ _ h => h.frame howner htable (hlog ▸ h.logged)⟩

/-- An attempt is made with the listener registered, or before any listen. -/
theorem udpSend_tends (S : Setting β) (out : Outgoing) (s : State β) : Tends s (udpSend S out s).2 := by
  refine ⟨⟨[_], rfl⟩, fun st hst h => h.frame rfl rfl (h.logged.cons (fun h => nomatch h)
    (fun h => nomatch h) fun hne => ?_)⟩
  have hheld : st = .held := by
    cases st with
    | never => exact absurd rfl hne
    | held => rfl
    | released => exact absurd rfl hst
  have hports : s.table.ports = [wgDefaultPort] := h.ports.trans (if_pos hheld)
  refine decide_eq_true ?_
  rw [hports, h.localPort hne]
  exact List.mem_singleton.mpr rfl

theorem netJiffy16_tends (S : Setting β) : (netJiffy16 S).Within (Tends (β := β)) := by
  have hload : ∀ byteOf, (loadJiffy S byteOf).Within (Tends (β := β)) := fun byteOf =>
    .act fun s => .quiet rfl rfl rfl
  refine .loop (fun _ => ?_) ()
  refine (hload _).bind fun mid => (hload _).bind fun low => (hload _).bind fun again => ?_
  refine .ite (.pure _) (.act fun s => ⟨⟨[_], rfl⟩, fun st _ h => h.frame rfl rfl ?_⟩)
  exact h.logged.cons (by simp) (by simp) fun _ => trivial

theorem netArpPump_tends (S : Setting β) (out : Outgoing) :
    (netArpPump S out).Within (Tends (β := β)) := by
  refine (Prog.Within.act fun s => .quiet rfl rfl rfl).bind fun _ =>
    (netJiffy16_tends S).bind fun t₀ => (Prog.Within.loop (fun stall => ?_) 0).bind fun failed =>
      .act fun s => .quiet rfl rfl rfl
  refine (Prog.Within.act fun s => ?_).bind fun _ =>
    (Prog.Within.act fun s => udpSend_tends S out s).bind fun refused =>
      .ite ((netJiffy16_tends S).bind fun now => ?_) (.pure _)
  · exact ⟨⟨[], rfl⟩, fun st _ h => (process_tracks S h).frame rfl rfl h.logged⟩
  · exact .ite (.act fun s => .quiet rfl rfl rfl)
      (.ite (.pure _) (.act fun s => .quiet rfl rfl rfl))

/-- The part of a send behind the listener makes at least one attempt. -/
theorem sendOut_tends {out : Outgoing} {c : Bool} (h : (sendOut S out).Returns s c s') :
    Tends s s' ∧ ∃ es reg failed, s'.log = es ++ .attempt reg out failed :: s.log := by
  rw [sendOut] at h
  obtain ⟨refused, s₁, hsend, h⟩ := Prog.returns_bind.mp h
  obtain ⟨-, rfl⟩ := Prog.returns_act.mp hsend
  have hfirst := udpSend_tends S out s
  rcases Prog.returns_ite.mp h with ⟨-, h⟩ | ⟨-, h⟩
  · have hpump := netArpPump_tends S out _ _ _ h
    obtain ⟨es, hes⟩ := hpump.1
    exact ⟨trans_of Tends hfirst hpump, es, _, _, hes⟩
  · obtain ⟨-, rfl⟩ := Prog.returns_pure.mp h
    exact ⟨hfirst, [], _, _, rfl⟩

/-- Nothing is reclaimed before a first listen, and a listener that was released is taken back. -/
theorem reclaim_tracks (h : Tracks st s) :
    (reclaim s).1 = false ∧ Tracks st.reclaim (reclaim s).2 ∧ ∃ es, (reclaim s).2.log = es ++ s.log := by
  cases st with
  | never =>
    have hport : s.mem.ip65ListenPort = .ofNat 0 := h.listenPort
    have hcond : ¬ (s.mem.ip65Listening = 0 ∧
        s.mem.ip65ListenPort.lo ||| s.mem.ip65ListenPort.hi ≠ 0) := by
      rw [hport]
      exact fun hc => hc.2 rfl
    rw [reclaim, if_neg hcond]
    exact ⟨rfl, h, [], rfl⟩
  | held =>
    have hcond : ¬ (s.mem.ip65Listening = 0 ∧
        s.mem.ip65ListenPort.lo ||| s.mem.ip65ListenPort.hi ≠ 0) := by
      rw [h.listening]
      exact fun hc => absurd hc.1 (by decide)
    rw [reclaim, if_neg hcond]
    exact ⟨rfl, h, [], rfl⟩
  | released =>
    have hport : s.mem.ip65ListenPort = wgDefaultPort := h.listenPort
    have hcond : s.mem.ip65Listening = 0 ∧
        s.mem.ip65ListenPort.lo ||| s.mem.ip65ListenPort.hi ≠ 0 := by
      rw [hport]
      exact ⟨h.listening, by decide⟩
    obtain ⟨htracks, hcarry⟩ := netUdpListen_tracks h (h.localPort (by decide))
    rw [reclaim, if_pos hcond]
    exact ⟨hcarry, htracks, netUdpListen_log s⟩

/-- **A send** leaves the listener held when any listen has succeeded, and makes an attempt. -/
theorem netUdpSend_tracks {dest : Endpoint} {ptr : Nat} {len : Cell16} {c : Bool} (h : Tracks st s)
    (hret : (netUdpSend S dest ptr len).Returns s c s') :
    Tracks st.reclaim s' ∧ ∃ es reg out failed, s'.log = es ++ s.log ∧ .attempt reg out failed ∈ es := by
  rw [netUdpSend] at hret
  obtain ⟨_, s₁, hbegin, hret⟩ := Prog.returns_bind.mp hret
  obtain ⟨-, rfl⟩ := Prog.returns_act.mp hbegin
  obtain ⟨noListener, s₂, hreclaim, hret⟩ := Prog.returns_bind.mp hret
  obtain ⟨rfl, rfl⟩ := Prog.returns_act.mp hreclaim
  obtain ⟨m, s₃, hmem, hret⟩ := Prog.returns_bind.mp hret
  obtain ⟨rfl, rfl⟩ := Prog.returns_act.mp hmem
  have hbegun : Tracks st (s.edit fun m => { m with netLastError := 0, ip65SendAttempts := 1 }) :=
    h.frame rfl rfl h.logged
  obtain ⟨hcarry, htracks, pre, hpre⟩ := reclaim_tracks hbegun
  rw [hcarry] at hret
  rcases Prog.returns_ite.mp hret with ⟨hfailed, -⟩ | ⟨-, hret⟩
  · exact absurd hfailed (by decide)
  · generalize stageOut dest ptr len _ = out at hret
    obtain ⟨htends, es, reg, failed, hes⟩ := sendOut_tends hret
    refine ⟨htends.2 _ (by cases st <;> decide) htracks, es ++ .attempt reg out failed :: pre, reg, out,
      failed, ?_, List.mem_append_right _ List.mem_cons_self⟩
    rw [hes, hpre, List.append_assoc]
    rfl

/-! ## The program -/

/-- The adapter, if no call is still running, is in a state that tracks some status. -/
def Tended (w : World β ω) : Prop := ∀ s, w.adapter = some s → ∃ st, Tracks st s

theorem Tended.call {w : World β ω} (h : Tended w) {fuel : Nat} {p : Prog (State β) Bool}
    (hp : ∀ {st s c s'}, Tracks st s → p.Returns s c s' → ∃ st', Tracks st' s') :
    Tended (call fuel p w).1 := by
  intro s' hs'
  unfold Ip65.call at hs'
  cases hadapter : w.adapter with
  | none =>
    rw [hadapter] at hs'
    cases hs'
  | some s =>
    rw [hadapter, Option.bind_some] at hs'
    obtain ⟨st, htracks⟩ := h s hadapter
    cases hrun : p.run fuel s with
    | none =>
      rw [hrun] at hs'
      cases hs'
    | some r =>
      rw [hrun] at hs'
      cases hs'
      exact hp htracks ⟨fuel, hrun⟩

theorem Tended.entry {w : World β ω} (h : Tended w) {fuel : Nat} {f : State β → State β × Bool}
    (hf : ∀ {st s}, Tracks st s → ∃ st', Tracks st' (f s).1) : Tended (Ip65.call fuel (entry f) w).1 := by
  refine h.call fun htracks hret => ?_
  obtain ⟨-, rfl⟩ := Prog.returns_act.mp hret
  exact hf htracks

theorem Tended.edit {w : World β ω} (h : Tended w) {f : Ip65Mem → Ip65Mem}
    (hf : ∀ m, (f m).owner = m.owner) : Tended (w.edit f) := by
  intro s' hs'
  obtain ⟨s, hs, rfl⟩ := Option.map_eq_some_iff.mp hs'
  obtain ⟨st, htracks⟩ := h s hs
  exact ⟨st, htracks.frame (hf _) rfl htracks.logged⟩

/-- **No entry point lets the two drift apart.** -/
theorem env_preserves (S : Setup β ω) : S.env.Preserves fun w _ => Tended w where
  online h := h
  netInit h := h.entry fun htracks => ⟨_, netInit_tracks S.setting htracks⟩
  netDhcpAcquire h := h.entry fun htracks => ⟨_, netDhcpAcquire_tracks S.setting htracks⟩
  netUdpListen h := h.entry fun htracks => ⟨_, listenDefault_tracks htracks⟩
  netPoll _ udp h := (h.edit (f := stageRecv S.setting.layout udp) fun _ => rfl).entry
    fun htracks => ⟨_, netPoll_tracks S.setting htracks⟩
  netUdpSend _ pkt h := (h.edit (f := fun m => { m with ram := placeRam (S.packetAt pkt) pkt m.ram })
    fun _ => rfl).call fun htracks hret => ⟨_, (netUdpSend_tracks htracks hret).1⟩
  netUdpClose h := h.entry fun htracks => ⟨_, (netUdpClose_tracks htracks).1⟩
  elapse h := h
  readReg _ h := h
  getinLine h := h
  readConfig h := h

/-- The adapter at program start. -/
def State.start (ram : Nat → UInt8) (blob : β) : State β where
  mem := .start ram
  table := .empty
  blob := blob
  loads := 0
  log := []

theorem start_tracks (ram : Nat → UInt8) (blob : β) : Tracks .never (State.start ram blob) where
  listening := rfl
  ports := rfl
  listenPort := rfl
  localPort hne := absurd rfl hne
  logged := ⟨List.not_mem_nil, fun h => absurd h List.not_mem_nil, .nil⟩

/-- **The listener is never lost.** Whatever routines the program calls, in any order and whichever of
them fail, the adapter believes that it listens exactly when the default port is in the blob's table,
and no other port ever is. No close has failed, and every attempt to send that followed a successful
listen was made with the listener registered. A send that is made from here after a successful listen
makes an attempt, and all of them so. -/
theorem listener_owned (S : Setup β ω) (ram : Nat → UInt8) (blob : β) (rest : ω)
    {m : Machine (World β ω)} (h : Roams S.env ⟨some (.start ram blob), rest⟩ m) {s : State β}
    (hs : m.world.adapter = some s) :
    (s.mem.ip65Listening = 1 ↔ wgDefaultPort ∈ s.table.ports) ∧
      (s.table.ports = [] ∨ s.table.ports = [wgDefaultPort]) ∧
      .close true ∉ s.log ∧ SendsRegistered s.log ∧
      ∀ dest ptr len c s', (netUdpSend S.setting dest ptr len).Returns s c s' → .listen false ∈ s.log →
        ∃ es, s'.log = es ++ s.log ∧ (∀ e ∈ es, e.Registered) ∧
          ∃ out failed, .attempt true out failed ∈ es := by
  have hstart : Tended (⟨some (.start ram blob), rest⟩ : World β ω) := by
    intro s₀ hs₀
    cases hs₀
    exact ⟨.never, start_tracks ram blob⟩
  obtain ⟨st, htracks⟩ := (env_preserves S).roams id hstart h s hs
  refine ⟨?_, ?_, htracks.logged.closes, htracks.logged.sends, ?_⟩
  · rw [htracks.listening, htracks.ports]
    cases st with
    | held => exact iff_of_true rfl (List.mem_singleton.mpr rfl)
    | never => exact iff_of_false (by decide) List.not_mem_nil
    | released => exact iff_of_false (by decide) List.not_mem_nil
  · rw [htracks.ports]
    cases st with
    | held => exact .inr rfl
    | never => exact .inl rfl
    | released => exact .inl rfl
  · intro dest ptr len c s' hret hlistened
    obtain ⟨hafter, es, reg, out, failed, hlog, hmem⟩ := netUdpSend_tracks htracks hret
    have hsends := hafter.logged.sends
    rw [hlog] at hsends
    have hregistered : ∀ e ∈ es, e.Registered := fun e he =>
      (List.pairwise_append.mp hsends).2.2 e he _ hlistened rfl
    have hreg : reg = true := hregistered _ hmem
    subst hreg
    exact ⟨es, hlog, hregistered, out, failed, hmem⟩

/-- The program with a blob that takes everything, and no one at the keys. -/
def sampleSetup : Setup Nat Unit where
  prims := rfcPrims
  build := largerBuild
  host := ⟨fun w => (w, 0), fun _ w => (w, 0), fun w => (w, 0), fun w => (w, []), fun w => (w, none)⟩
  setting := sampleSetting fun _ => 0
  packetAt := fun _ => 0x4000
  fuel := 10

/-- The machine before anything is called. -/
def sampleStart : Machine (World Nat Unit) :=
  .start 0 ⟨some (.start (fun _ => 0) 0), ()⟩ 0

/-- After the network was brought up twice, and the session reset. -/
theorem listener_owned_reset :
    ∃ s, (callRoutine sampleSetup.env (callRoutine sampleSetup.env
        (callRoutine sampleSetup.env sampleStart .doNetInit) .doNetInit) .sessionReset).world.adapter =
      some s ∧ s.mem.ip65ListenPort = wgDefaultPort ∧
      (s.mem.ip65Listening = 1 ↔ wgDefaultPort ∈ s.table.ports) ∧ SendsRegistered s.log := by
  have hstart : Roams sampleSetup.env ⟨some (.start (fun _ => 0) 0), ()⟩ sampleStart := .start rfl
  have hroams := ((hstart.call .doNetInit).call .doNetInit).call .sessionReset
  have howned := listener_owned sampleSetup (fun _ => 0) 0 () hroams rfl
  exact ⟨_, rfl, rfl, howned.1, howned.2.2.2.1⟩

end C64WireGuard.Ip65
