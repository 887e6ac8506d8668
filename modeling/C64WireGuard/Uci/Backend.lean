import C64WireGuard.MainLoop
import C64WireGuard.Uci.Calls

/-!
# The program on this adapter

`Setup.net` is the adapter as the program sees it: the cells that `data.s` shares between the two go to
the adapter when it is called and come back when it returns. A call that has not returned after
`fuel` rounds leaves no adapter at all, and nothing is said about what comes after it.

The routines of the session touch the adapter in a few ways only. `Stays` and `Leaves` say which
of them a routine makes use of.
-/

namespace C64WireGuard.Uci

open Bytes

variable {δ ω α : Type}

/-! ## The adapter as a backend -/

/-- The adapter with its device, unless a call is still running, and what else there is. -/
structure World (δ ω : Type) where
  adapter : Option (State δ)
  rest : ω

/-- What the program is linked and run with: the crypto library, the constants of the build, the
KERNAL, a device, the address of a packet to send and that of `udp_recv_buf`, and the rounds that a
call of the adapter is waited for. -/
structure Setup (δ ω : Type) where
  prims : Primitives
  build : Build
  host : Host ω
  device : Device δ
  packetAt : List UInt8 → Nat
  recvBufAt : Nat
  recvBufAt_le : recvBufAt + udpRecvBufSize ≤ 65536
  fuel : Nat

/-- A call of the adapter, and its carry. -/
def call (fuel : Nat) (p : Prog (State δ) Bool) (w : World δ ω) : World δ ω × Bool :=
  match w.adapter.bind (p.run fuel) with
  | some (c, s) => ({ w with adapter := some s }, c)
  | none => ({ w with adapter := none }, true)

/-- The memory with `bs` at `a`. -/
def placeRam (a : Nat) (bs : List UInt8) (ram : Nat → UInt8) : Nat → UInt8 :=
  fun i => if a ≤ i then bs.getD (i - a) (ram i) else ram i

/-- The shared cells, on their way in before a send. -/
def stageSend (a : Nat) (dest : Endpoint) (pkt : List UInt8) (m : UciMem) : UciMem :=
  { m with ram := placeRam a pkt m.ram, netUdpSendLen := pkt.length, netUdpDest := dest }

/-- The shared cells, on their way in before a poll. -/
def stageRecv (a : Nat) (dest : Endpoint) (udp : UdpRecv) (m : UciMem) : UciMem :=
  { m with
    ram := placeRam a udp.udpRecvBuf.toList m.ram
    udpRecvLen := udp.udpRecvLen
    udpRecvSrc := udp.udpRecvSrc
    udpRecvReady := if udp.udpRecvReady then 1 else 0
    netUdpDest := dest }

/-- The receive cells, on their way out. -/
def recvCells (a : Nat) (m : UciMem) : UdpRecv where
  udpRecvBuf := .ofFn fun i => m.ram (a + i)
  udpRecvLen := min m.udpRecvLen udpRecvBufSize
  udpRecvLen_le := min_le_right _ _
  udpRecvSrc := m.udpRecvSrc
  udpRecvReady := decide (m.udpRecvReady ≠ 0)

/-- Write the adapter's cells. -/
def World.edit (f : UciMem → UciMem) (w : World δ ω) : World δ ω :=
  { w with adapter := w.adapter.map fun s => { s with mem := f s.mem } }

/-- The adapter behind `net_abi.inc`. `net_udp_listen` asks nothing of the device. -/
def Setup.net (S : Setup δ ω) : NetBackend (World δ ω) where
  netInit w := call S.fuel (netInit S.device) w
  netDhcpAcquire w := call S.fuel (netDhcpAcquire S.device) w
  netUdpListen w := (w, false)
  netPoll dest udp w :=
    let r := call S.fuel (netPoll S.device S.recvBufAt) (w.edit (stageRecv S.recvBufAt dest udp))
    (r.1, (r.1.adapter.map fun s => recvCells S.recvBufAt s.mem).getD udp)
  netUdpSend dest pkt w :=
    call S.fuel (netUdpSend S.device S.build.uciChunkedWrite (S.packetAt pkt))
      (w.edit (stageSend (S.packetAt pkt) dest pkt))
  netUdpClose w := (call S.fuel (netUdpClose S.device) w).1
  netLastError w := (w.adapter.map fun s => s.mem.netLastError).getD 0

/-- The KERNAL and the chips, which know nothing of the adapter. -/
def Setup.kernal (S : Setup δ ω) : Host (World δ ω) where
  elapse w := ({ w with rest := (S.host.elapse w.rest).1 }, (S.host.elapse w.rest).2)
  readReg r w := ({ w with rest := (S.host.readReg r w.rest).1 }, (S.host.readReg r w.rest).2)
  getin w := ({ w with rest := (S.host.getin w.rest).1 }, (S.host.getin w.rest).2)
  getinLine w := ({ w with rest := (S.host.getinLine w.rest).1 }, (S.host.getinLine w.rest).2)
  readConfig w := ({ w with rest := (S.host.readConfig w.rest).1 }, (S.host.readConfig w.rest).2)

/-- The program on this adapter. -/
def Setup.env (S : Setup δ ω) : Env (World δ ω) where
  prims := S.prims
  net := S.net
  host := S.kernal
  build := S.build

/-! ## What a call does to the adapter -/

/-- The adapter of `w'`, if there is one, took steps from that of `w`. -/
def Reaches (dest : Option Endpoint) (w w' : World δ ω) : Prop :=
  ∀ s', w'.adapter = some s' → ∃ s, w.adapter = some s ∧ (s.mem.socket.Flag → Steps dest s s')

instance (dest : Option Endpoint) : IsPreorder (World δ ω) (Reaches dest) where
  refl w := fun s hs => ⟨s, hs, fun _ => refl_of (Steps dest) s⟩
  trans := by
    intro w₁ w₂ w₃ h₁ h₂ s₃ hs₃
    obtain ⟨s₂, hs₂, hsteps₂⟩ := h₂ s₃ hs₃
    obtain ⟨s₁, hs₁, hsteps₁⟩ := h₁ s₂ hs₂
    refine ⟨s₁, hs₁, fun hflag => ?_⟩
    have h := hsteps₁ hflag
    obtain ⟨es, -, hsocket⟩ := id h
    exact trans_of (Steps dest) h (hsteps₂ (hsocket.flag hflag))

theorem Reaches.of_eq {dest : Option Endpoint} {w w' : World δ ω} (h : w'.adapter = w.adapter) :
    Reaches dest w w' := fun s hs => ⟨s, h ▸ hs, fun _ => refl_of (Steps dest) s⟩

theorem Steps.mono {dest : Option Endpoint} {s s' : State δ} (h : Steps none s s') :
    Steps dest s s' := by
  obtain ⟨es, hes, hsteps⟩ := h
  exact ⟨es, hes, hsteps.mono⟩

theorem Reaches.mono {dest : Option Endpoint} {w w' : World δ ω} (h : Reaches none w w') :
    Reaches dest w w' := by
  intro s' hs'
  obtain ⟨s, hs, hsteps⟩ := h s' hs'
  exact ⟨s, hs, fun hflag => (hsteps hflag).mono⟩

theorem call_spec {fuel : Nat} {p : Prog (State δ) Bool} {w : World δ ω} {s' : State δ}
    (h : (call fuel p w).1.adapter = some s') :
    ∃ s c, w.adapter = some s ∧ p.Returns s c s' := by
  unfold call at h
  cases hadapter : w.adapter with
  | none =>
    rw [hadapter] at h
    cases h
  | some s =>
    rw [hadapter, Option.bind_some] at h
    cases hrun : p.run fuel s with
    | none =>
      rw [hrun] at h
      cases h
    | some r =>
      rw [hrun] at h
      cases h
      exact ⟨s, r.1, rfl, fuel, hrun⟩

/-- A call does what its program does. -/
theorem Reaches.call {dest : Option Endpoint} {fuel : Nat} {p : Prog (State δ) Bool}
    {w : World δ ω}
    (hp : ∀ s c s', w.adapter = some s → s.mem.socket.Flag → p.Returns s c s' → Steps dest s s') :
    Reaches dest w (call fuel p w).1 := by
  intro s' hs'
  obtain ⟨s, c, hs, hret⟩ := call_spec hs'
  exact ⟨s, hs, fun hflag => hp s c s' hs hflag hret⟩

/-- Writing cells other than those of the socket. -/
theorem Reaches.edit {dest : Option Endpoint} {f : UciMem → UciMem}
    (hf : ∀ m, (f m).socket = m.socket) (w : World δ ω) : Reaches dest w (w.edit f) := by
  intro s' hs'
  obtain ⟨s, hs, rfl⟩ := Option.map_eq_some_iff.mp hs'
  exact ⟨s, hs, fun _ => .of_eq rfl (hf s.mem)⟩

section Machine

variable {S : Setup δ ω} {m m' m'' : Machine (World δ ω)} {sends : Bool}

/-- `wg_peer` stays as it is, and whatever is connected or written, if anything may be, goes there. -/
structure Stays (sends : Bool) (m m' : Machine (World δ ω)) : Prop where
  peer : m'.wgPeer = m.wgPeer
  adapter : Reaches (if sends then some m.wgPeer else none) m.world m'.world

/-- Nothing is connected or written, and there is no socket afterwards. `wg_peer` may move. -/
structure Leaves (m m' : Machine (World δ ω)) : Prop where
  adapter : Reaches none m.world m'.world
  closed : ∀ s', m'.world.adapter = some s' → s'.mem.uciSocketOpen = 0

namespace Stays

theorem refl (sends : Bool) (m : Machine (World δ ω)) : Stays sends m m := ⟨rfl, refl_of _ _⟩

theorem trans (h : Stays sends m m') (h' : Stays sends m' m'') : Stays sends m m'' := by
  have hadapter := h'.adapter
  rw [h.peer] at hadapter
  exact ⟨h'.peer.trans h.peer, trans_of _ h.adapter hadapter⟩

/-- Sending is not compulsory. -/
theorem silent (h : Stays false m m') : Stays sends m m' := ⟨h.peer, h.adapter.mono⟩

/-- Writes elsewhere. -/
theorem elsewhere (h : Stays sends m m') (hpeer : m''.wgPeer = m'.wgPeer)
    (hadapter : m''.world.adapter = m'.world.adapter) : Stays sends m m'' :=
  h.trans ⟨hpeer, .of_eq hadapter⟩

/-! ### Calls of the adapter -/

theorem netInit (h : Stays sends m m') :
    Stays sends m { m' with world := (S.env.net.netInit m'.world).1 } := by
  refine h.trans ⟨rfl, .call fun s c s' hs hflag hret => ?_⟩
  exact (netInit_steps hflag hret).mono

theorem netDhcpAcquire (h : Stays sends m m') :
    Stays sends m { m' with world := (S.env.net.netDhcpAcquire m'.world).1 } := by
  refine h.trans ⟨rfl, .call fun s c s' hs hflag hret => ?_⟩
  exact (netDhcpAcquire_steps s c s' hret).mono

/-- `net_poll` gets its cells from the program. -/
theorem netPoll (h : Stays sends m m') :
    Stays sends m
      { m' with
        world := (S.env.net.netPoll m'.netUdpDest m'.udp m'.world).1
        udp := (S.env.net.netPoll m'.netUdpDest m'.udp m'.world).2 } := by
  refine h.trans ⟨rfl, ?_⟩
  refine trans_of (Reaches _) (.edit (f := stageRecv S.recvBufAt m'.netUdpDest m'.udp) ?_ m'.world)
    (.call fun s c s' hs hflag hret => (netPoll_steps hret).mono)
  intro m
  rfl

theorem netUdpClose (h : Stays sends m m') : Stays sends m (m'.netUdpClose S.env) := by
  refine h.trans ⟨rfl, .call fun s c s' hs hflag hret => ?_⟩
  exact (netUdpClose_steps hret).1.mono

/-- A packet goes to the destination that is staged, which is the peer. -/
theorem netUdpSend (h : Stays true m m') (hdest : m'.netUdpDest = m'.wgPeer) (pkt : List UInt8) :
    Stays true m (m'.netUdpSend S.env pkt).1 := by
  refine h.trans ⟨rfl, ?_⟩
  refine trans_of (Reaches _) (.edit (f := stageSend (S.packetAt pkt) m'.netUdpDest pkt) ?_ m'.world)
    (.call fun s c s' hs hflag hret => ?_)
  · intro m
    rfl
  · obtain ⟨t, -, rfl⟩ := Option.map_eq_some_iff.mp hs
    rw [if_pos rfl, ← hdest]
    exact netUdpSend_steps hret

end Stays

end Machine

end C64WireGuard.Uci
