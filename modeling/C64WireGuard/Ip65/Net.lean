import C64WireGuard.Ip65.Receive
import C64WireGuard.Lib.Prog

/-!
# `net/ip65/net.s`, the adapter for the ip65 blob

The routines behind `net_abi.inc`: bring-up, the listener, and sending with a retry that lets the blob
take ARP replies in. The blob is a parameter, but for its table of listeners, and so is the clock:
`time k` is the jiffies since power-on at the `k`-th time that the program looks at it. The carry is
the answer `true`.

`State.log` is a ghost: a newest-first log of what the adapter asked of the blob. No routine reads it.
-/

namespace C64WireGuard.Ip65

open Alu Bytes

/-! ## The blob -/

/-- `udp_cbmax`. -/
def udpCbmax : Nat := 4

/-- The blob's table of listeners: up to four ports. -/
structure ListenerTable where
  ports : List Cell16
  nodup : ports.Nodup
  length_le : ports.length ≤ udpCbmax

/-- The table as `ip65_init` leaves it. -/
def ListenerTable.empty : ListenerTable := ⟨[], List.nodup_nil, Nat.zero_le _⟩

/-- `ip65_udp_add`: not a port that is there already, and not a fifth one. -/
def ListenerTable.add (port : Cell16) (t : ListenerTable) : ListenerTable × Bool :=
  if h : port ∈ t.ports ∨ udpCbmax ≤ t.ports.length then (t, true)
  else
    (⟨port :: t.ports, List.nodup_cons.mpr ⟨fun hp => h (.inl hp), t.nodup⟩,
      Nat.not_le.mp fun hle => h (.inr hle)⟩, false)

/-- `ip65_udp_remove`: not a port that is not there. -/
def ListenerTable.remove (port : Cell16) (t : ListenerTable) : ListenerTable × Bool :=
  if port ∈ t.ports then
    (⟨t.ports.erase port, t.nodup.erase port, (List.length_erase_le).trans t.length_le⟩, false)
  else (t, true)

/-- What the blob sends from: addresses and ports, and where the bytes are. -/
structure Outgoing where
  dest : Bytes 4
  destPort : Cell16
  srcPort : Cell16
  ptr : Nat
  len : Cell16

/-- The rest of the blob. `ip65_process` may hand any number of datagrams to the callback, each with
what is then in the blob's memory; the others report with the carry. -/
structure Blob (β : Type) where
  ip65Init : β → β × Bool
  ip65DhcpInit : β → β × Bool
  ip65Process : β → β × List (Nat → UInt8)
  ip65UdpSend : Outgoing → (Nat → UInt8) → β → β × Bool

/-- What the adapter asks of the blob, and what it reads from the clock. An attempt to send is logged
with whether the port it comes from is in the table of listeners. -/
inductive Event
  | listen (failed : Bool)
  | close (failed : Bool)
  | attempt (registered : Bool) (out : Outgoing) (failed : Bool)
  | reading (t : Cell16)

structure State (β : Type) where
  mem : Ip65Mem
  table : ListenerTable
  blob : β
  loads : Nat
  log : List Event

/-- What the adapter is linked and run with. -/
structure Setting (β : Type) where
  layout : Layout
  blob : Blob β
  time : Nat → Nat

/-! ## Constants -/

/-- `NET_ERR_TIMEBASE_STOPPED`. -/
def netErrTimebaseStopped : UInt8 := 0x01

/-- `NET_ERR_IP65_INIT`. -/
def netErrIp65Init : UInt8 := 0x41

/-- `NET_ERR_IP65_DHCP`. -/
def netErrIp65Dhcp : UInt8 := 0x42

/-- `NET_ERR_IP65_UDP_LISTEN`. -/
def netErrIp65UdpListen : UInt8 := 0x46

/-- `NET_ERR_IP65_WAIT_TIMEOUT`. -/
def netErrIp65WaitTimeout : UInt8 := 0x48

/-- `NET_ERR_IP65_UDP_UNBIND`. -/
def netErrIp65UdpUnbind : UInt8 := 0x49

/-- `IP65_ARP_BUDGET_JIFFIES`. -/
def ip65ArpBudgetJiffies : UInt8 := 30

variable {β : Type}

/-- Change the cells. -/
def State.edit (f : Ip65Mem → Ip65Mem) (s : State β) : State β := { s with mem := f s.mem }

/-- `sta net_last_error`. -/
def State.fail (code : UInt8) (s : State β) : State β :=
  s.edit fun m => { m with netLastError := code }

/-! ## Bring-up, polling, the listener -/

variable (S : Setting β)

/-- `net_init`. The blob's table of listeners is empty afterwards. -/
def netInit (s : State β) : State β × Bool :=
  let s := s.edit fun m =>
    { m with
      ip65Listening := 0
      netLastError := 0
      ip65SendPump := 0
      ip65SendAttempts := 0
      ip65RecvDropped := 0 }
  let r := S.blob.ip65Init s.blob
  let s := { s with blob := r.1, table := .empty }
  if r.2 then (s.fail netErrIp65Init, true) else (s, false)

/-- `net_dhcp_acquire`. -/
def netDhcpAcquire (s : State β) : State β × Bool :=
  let r := S.blob.ip65DhcpInit s.blob
  let s := { s with blob := r.1 }
  if r.2 then (s.fail netErrIp65Dhcp, true) else (s, false)

/-- The blob's memory holds a datagram, and it calls `net_udp_recv_cb`. -/
def deliver (L : Layout) (m : Ip65Mem) (inp : Nat → UInt8) : Ip65Mem :=
  netUdpRecvCb L { m with ram := fun a => if 0xa000 ≤ a then inp a else m.ram a }

/-- `ip65_process`. -/
def process (s : State β) : State β :=
  let r := S.blob.ip65Process s.blob
  { s with blob := r.1, mem := r.2.foldl (deliver S.layout) s.mem }

/-- `net_poll`. -/
def netPoll (s : State β) : State β × Bool := (process S s, false)

/-- `net_udp_listen`. -/
def netUdpListen (s : State β) : State β × Bool :=
  let r := s.table.add s.mem.wgLocalPort
  let s := { s with table := r.1, log := .listen r.2 :: s.log }
  if r.2 then (s.fail netErrIp65UdpListen, true)
  else (s.edit fun m => { m with ip65ListenPort := m.wgLocalPort, ip65Listening := 1 }, false)

/-- `net_udp_close`. -/
def netUdpClose (s : State β) : State β × Bool :=
  if s.mem.ip65Listening = 0 then (s, false)
  else
    let r := s.table.remove s.mem.ip65ListenPort
    let s := { s with table := r.1, log := .close r.2 :: s.log }
    let s := s.edit fun m => { m with ip65Listening := 0 }
    if r.2 then (s.fail netErrIp65UdpUnbind, true) else (s, false)

/-! ## The clock -/

/-- The jiffy clock at `$a0`, `$a1` and `$a2`, as a number. -/
def jiffies (t : Nat) : Nat := t % jiffyPeriod

/-- `lda $a1`. -/
def jiffyMid (t : Nat) : UInt8 := hi (jiffies t)

/-- `lda $a2`. -/
def jiffyLow (t : Nat) : UInt8 := lo (jiffies t)

/-- Look at the clock. -/
def loadJiffy (byteOf : Nat → UInt8) : Prog (State β) UInt8 :=
  .act fun s => (byteOf (S.time s.loads), { s with loads := s.loads + 1 })

/-- One round of `net_jiffy16`. -/
def jiffyRound : Prog (State β) (Unit ⊕ Cell16) := do
  let mid ← loadJiffy S jiffyMid
  let low ← loadJiffy S jiffyLow
  let again ← loadJiffy S jiffyMid
  if again ≠ mid then return .inl ()
  else Prog.act fun s => (.inr ⟨low, again⟩, { s with log := .reading ⟨low, again⟩ :: s.log })

/-- `net_jiffy16`. -/
def netJiffy16 : Prog (State β) Cell16 := .loop (fun _ => jiffyRound S) ()

/-! ## Sending -/

/-- `ip65_udp_send`. -/
def udpSend (out : Outgoing) (s : State β) : Bool × State β :=
  let r := S.blob.ip65UdpSend out s.mem.ram s.blob
  (r.2, { s with
    blob := r.1
    log := .attempt (decide (s.mem.wgLocalPort ∈ s.table.ports)) out r.2 :: s.log })

/-- Count an attempt. -/
def countAttempt (s : State β) : State β :=
  s.edit fun m => { m with ip65SendAttempts := saturatingInc m.ip65SendAttempts }

/-- One round of `@ap_loop`, with the budget counted from `t0`. -/
def apRound (out : Outgoing) (t0 : Cell16) (stall : UInt8) : Prog (State β) (UInt8 ⊕ Bool) := do
  Prog.act fun s => ((), countAttempt (process S s))
  let refused ← Prog.act (udpSend S out)
  if refused then
    let now ← netJiffy16 S
    let low := sbc now.lo t0.lo true
    let high := sbc now.hi t0.hi low.2
    if high.1 ≠ 0 ∨ ip65ArpBudgetJiffies ≤ low.1 then
      Prog.act fun s => (.inr true, s.fail netErrIp65WaitTimeout)
    else
      let stall := stall - 1
      if stall ≠ 0 ∨ low.1 ≠ 0 then return .inl stall
      else Prog.act fun s => (.inr true, s.fail netErrTimebaseStopped)
  else return .inr false

/-- `net_arp_pump`. The callback is disarmed until it returns. -/
def netArpPump (out : Outgoing) : Prog (State β) Bool := do
  Prog.act fun s => ((), s.edit fun m => { m with ip65SendPump := 1 })
  let t0 ← netJiffy16 S
  let failed ← Prog.loop (apRound S out t0) 0
  Prog.act fun s => (failed, s.edit fun m => { m with ip65SendPump := 0 })

/-- Listen again when a close released the port that a listen had claimed; whether that failed. -/
def reclaim (s : State β) : Bool × State β :=
  if s.mem.ip65Listening = 0 ∧ s.mem.ip65ListenPort.lo ||| s.mem.ip65ListenPort.hi ≠ 0 then
    ((netUdpListen s).2, (netUdpListen s).1)
  else (false, s)

/-- What `net_udp_send` stages in the blob's cells. -/
def stageOut (dest : Endpoint) (ptr : Nat) (len : Cell16) (m : Ip65Mem) : Outgoing where
  dest := dest.ip
  destPort := ⟨byte dest.port 1, byte dest.port 0⟩
  srcPort := m.wgLocalPort
  ptr := ptr
  len := len

/-- `@snd_go`. -/
def sendOut (out : Outgoing) : Prog (State β) Bool := do
  let refused ← Prog.act (udpSend S out)
  if refused then netArpPump S out else return false

/-- `net_udp_send`. -/
def netUdpSend (dest : Endpoint) (ptr : Nat) (len : Cell16) : Prog (State β) Bool := do
  Prog.act fun s => ((), s.edit fun m => { m with netLastError := 0, ip65SendAttempts := 1 })
  let noListener ← Prog.act reclaim
  let m ← Prog.act fun s : State β => (s.mem, s)
  if noListener then return true else sendOut S (stageOut dest ptr len m)

end C64WireGuard.Ip65
