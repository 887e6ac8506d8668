import C64WireGuard.Uci.Backend

/-!
# The program's operations on this adapter

Each routine of the session, the timers and the main loop either leaves `wg_peer` alone and sends
there, or closes the socket when it moves `wg_peer`, before it sends anything (`Goes`).
-/

namespace C64WireGuard.Uci

open Bytes

variable {δ ω : Type} {S : Setup δ ω} {m m' m'' : Machine (World δ ω)} {sends : Bool}

/-! ## Routines that leave the peer alone -/

namespace Stays

theorem elapse (h : Stays sends m m') : Stays sends m (m'.elapse S.env) := h.elsewhere rfl rfl

theorem printString (h : Stays sends m m') (s : Str) : Stays sends m (m'.printString s) :=
  h.elsewhere rfl rfl

theorem timerMarkSend (h : Stays sends m m') : Stays sends m (timerMarkSend S.env m') :=
  h.elsewhere rfl rfl

theorem msgSendFail (h : Stays sends m m') : Stays sends m (msgSendFail S.env m') :=
  h.elsewhere rfl rfl

theorem sessionReset (h : Stays sends m m') : Stays sends m (sessionReset S.env m') :=
  netUdpClose (h.elsewhere rfl rfl)

theorem transportSend (h : Stays true m m') (sender : Sender) :
    Stays true m (transportSend S.env sender m').1 := by
  rw [C64WireGuard.transportSend]
  split
  · exact h
  · have hcall : (callTransportEncrypt S.env sender m').1.wgPeer = m'.wgPeer ∧
        (callTransportEncrypt S.env sender m').1.world = m'.world := by
      unfold callTransportEncrypt
      dsimp only
      split
      · exact ⟨rfl, rfl⟩
      · exact ⟨rfl, rfl⟩
    generalize callTransportEncrypt S.env sender m' = r at *
    have hr : Stays true m r.1 := h.elsewhere hcall.1 (congrArg World.adapter hcall.2)
    dsimp only
    split
    · exact hr
    · have hstaged : Stays true m (sessionStageDest r.1) := hr.elsewhere rfl rfl
      exact netUdpSend hstaged rfl _

theorem routePayload (h : Stays sends m m') : Stays sends m (routePayload S.env m') := by
  rw [C64WireGuard.routePayload, handleIcmp, handleUdp]
  split_ifs
  all_goals exact h.elsewhere rfl rfl

theorem handleType2 (h : Stays sends m m') : Stays sends m (handleType2 S.env m') := by
  rw [C64WireGuard.handleType2]
  split
  · have hcall : Stays sends m (callHsProcessResponse S.env m').2 := h.elsewhere rfl rfl
    generalize callHsProcessResponse S.env m' = r at *
    dsimp only
    split
    · exact hcall.elsewhere rfl rfl
    · exact (sessionReset hcall).printString _
  · exact h

theorem timerCheck (h : Stays true m m') : Stays true m (timerCheck S.env m') := by
  have hstart : Stays true m ((m'.elapse S.env).log (.timerCheck (m'.elapse S.env).ticks)) :=
    h.elsewhere rfl rfl
  rw [C64WireGuard.timerCheck]
  generalize (m'.elapse S.env).log (.timerCheck (m'.elapse S.env).ticks) = r at *
  split
  · exact hstart
  · rw [timerCheckHandshake]
    dsimp only
    split_ifs
    · exact (sessionReset (elapse hstart)).printString _
    · exact elapse hstart
    · exact hstart
  · have hrekey : Stays true m (checkRekey S.env r) := by
      rw [checkRekey]
      dsimp only
      split_ifs
      all_goals exact hstart.elsewhere rfl rfl
    rw [timerCheckActive]
    split
    · exact (sessionReset hstart).printString _
    · rw [checkKeepalive]
      generalize checkRekey S.env r = r at *
      dsimp only
      split
      · have helapse : Stays true m { r.elapse S.env with
            tp := { (r.elapse S.env).tp with tpPayloadLen := 0 } } := hrekey.elsewhere rfl rfl
        exact (timerMarkSend (transportSend helapse .keepalive)).printString _
      · exact elapse hrekey

theorem doNetInit (h : Stays sends m m') : Stays sends m (doNetInit S.env m') := by
  rw [C64WireGuard.doNetInit]
  have hprinted : Stays sends m (m'.printString .netInitMsg) := h.elsewhere rfl rfl
  have hinit := netInit (S := S) hprinted
  generalize S.env.net.netInit (m'.printString .netInitMsg).world = r at *
  dsimp only
  split
  · exact hinit.elsewhere rfl rfl
  · generalize hm₁ : ({ m'.printString .netInitMsg with world := r.1 } :
      Machine (World δ ω)).printString .netDhcpMsg = m₁
    have hdhcp : Stays sends m m₁ := by
      rw [← hm₁]
      exact hinit.elsewhere rfl rfl
    have hacquire := netDhcpAcquire (S := S) hdhcp
    generalize S.env.net.netDhcpAcquire m₁.world = r at *
    split
    all_goals exact hacquire.elsewhere rfl rfl

theorem doSendTest (h : Stays true m m') : Stays true m (doSendTest S.env m') := by
  rw [C64WireGuard.doSendTest]
  have hstaged : Stays true m { m' with
      tp := { m'.tp with tpPayloadPtr := .testPayload, tpPayloadLen := 15 } } :=
    h.elsewhere rfl rfl
  exact (transportSend hstaged .sendTest).printString _

theorem doPing (h : Stays true m m') : Stays true m (doPing S.env m') := by
  rw [C64WireGuard.doPing]
  split
  · have hstaged : Stays true m (stageIpPacket { m' with ip := icmpBuildEcho m'.cfg m'.ip }) :=
      h.elsewhere rfl rfl
    exact (timerMarkSend (transportSend hstaged .ping)).printString _
  · exact h.elsewhere rfl rfl

theorem doMessageInput (h : Stays true m m') : Stays true m (doMessageInput S.env m') := by
  rw [C64WireGuard.doMessageInput]
  split
  · have hline : Stays true m (readInputLine S.env (m'.printString .msgPrompt)) :=
      h.elsewhere rfl rfl
    generalize readInputLine S.env (m'.printString .msgPrompt) = r at *
    have hstaged : Stays true m (stageIpPacket { r with
        ip := udpTunnelBuild S.env.build (.ipPacketBuf ipUdpHdrLen) r.ip.msgInputLen r.cfg r.ip }) := hline.elsewhere rfl rfl
    have hsend := transportSend (S := S) hstaged .message
    dsimp only
    split
    · exact msgSendFail hsend
    · exact (timerMarkSend hsend).printString _
  · exact h.printString _

/-- Every command but the handshake. -/
theorem runCommand (h : Stays true m m') {c : Command} (hc : c ≠ .handshake) :
    Stays true m (runCommand S.env m' c) := by
  cases c with
  | quit => exact netUdpClose h
  | netInit => exact doNetInit h
  | handshake => exact absurd rfl hc
  | sendTest => exact doSendTest h
  | ping => exact doPing h
  | message => exact doMessageInput h
  | loadConfig => exact h.elsewhere rfl rfl

end Stays

/-! ## Routines that may move the peer -/

/-- The peer stays, or the socket is gone when it moves, before anything is sent. -/
def Goes (m m' : Machine (World δ ω)) : Prop :=
  Stays true m m' ∨ ∃ m₁, Leaves m m₁ ∧ Stays true m₁ m'

namespace Goes

theorem stays (h : Goes m m') (h' : Stays true m' m'') : Goes m m'' := by
  rcases h with h | ⟨m₁, hleaves, h⟩
  · exact Or.inl (h.trans h')
  · exact Or.inr ⟨m₁, hleaves, h.trans h'⟩

/-- Nothing is sent before. -/
theorem after (h : Stays false m m') (h' : Goes m' m'') : Goes m m'' := by
  rcases h' with h' | ⟨m₁, hleaves, h'⟩
  · exact Or.inl (h.silent.trans h')
  · exact Or.inr ⟨m₁, ⟨trans_of (Reaches none) h.adapter hleaves.adapter, hleaves.closed⟩, h'⟩

end Goes

/-- A move of the peer, with the close that goes with it. -/
theorem leaves_netUdpClose (peer : Endpoint) :
    Leaves m (({ m with wgPeer := peer } : Machine (World δ ω)).netUdpClose S.env) := by
  refine ⟨.call fun s c s' hs hflag hret => (netUdpClose_steps hret).1, fun s' hs' => ?_⟩
  obtain ⟨s, c, -, hret⟩ := call_spec hs'
  exact (netUdpClose_steps hret).2

theorem endpointUpdate_goes (m : Machine (World δ ω)) : Goes m (endpointUpdate S.env m) := by
  rw [endpointUpdate]
  split
  · exact Or.inl (.refl true m)
  · exact Or.inr ⟨_, leaves_netUdpClose _, .refl true _⟩

theorem loadEndpoint_goes (m : Machine (World δ ω)) : Goes m (loadEndpoint S.env m) := by
  rw [loadEndpoint]
  split
  · rename_i hsame
    exact Or.inl ⟨hsame, .of_eq rfl⟩
  · exact Or.inr ⟨_, leaves_netUdpClose _, .refl true _⟩

theorem configLoad_goes (m : Machine (World δ ω)) : Goes m (configLoad S.env m).2 := by
  have hkeys : Stays false m (loadKeys m) := (Stays.refl false m).elsewhere rfl rfl
  have hload := (loadEndpoint_goes (S := S) (loadKeys m)).after hkeys
  rw [configLoad]
  generalize loadEndpoint S.env (loadKeys m) = r at *
  exact hload.stays ((Stays.refl true r).elsewhere rfl rfl)

theorem entropyFill_stays (n : Nat) (carry : Bool) (m : Machine (World δ ω)) :
    Stays false m (entropyFill S.env n carry m).2.2 := by
  have hloop : ∀ n filled carry (m : Machine (World δ ω)),
      Stays false m (entropyLoop S.env n filled carry m).2.2 := by
    intro n
    induction n with
    | zero => exact fun _ _ m => .refl false m
    | succ n ih =>
      intro filled carry m
      rw [entropyLoop]
      have hbyte : Stays false m (entropyByte S.env carry m).2 :=
        (Stays.refl false m).elsewhere rfl rfl
      exact hbyte.trans (ih _ _ _)
  exact hloop n [] carry m

theorem sessionPrepare_goes (m : Machine (World δ ω)) : Goes m (sessionPrepare S.env m) := by
  have hload := configLoad_goes (S := S) m
  rw [sessionPrepare]
  generalize configLoad S.env m = c at *
  have hpriv := entropyFill_stays (S := S) 32 c.1 c.2
  generalize entropyFill S.env 32 c.1 c.2 = priv at *
  dsimp only
  have hmid : Stays false c.2 { priv.2.2 with hs := { priv.2.2.hs with hsEphemPriv := priv.1 } } :=
    hpriv.elsewhere rfl rfl
  have hidx := entropyFill_stays (S := S) 4 priv.2.1
    { priv.2.2 with hs := { priv.2.2.hs with hsEphemPriv := priv.1 } }
  generalize entropyFill S.env 4 priv.2.1
    { priv.2.2 with hs := { priv.2.2.hs with hsEphemPriv := priv.1 } } = idx at *
  exact hload.stays ((hmid.trans hidx).silent.elsewhere rfl rfl)

theorem sessionInitiate_goes (m : Machine (World δ ω)) : Goes m (sessionInitiate S.env m) := by
  have hprepare := sessionPrepare_goes (S := S) m
  rw [sessionInitiate, sendInitiation]
  generalize sessionPrepare S.env m = r at *
  have hstaged : Stays true r
      (sessionStageDest { r with hs := hsCreateInitiation S.env.prims r.hs }) :=
    (Stays.refl true r).elsewhere rfl rfl
  have hsend := Stays.netUdpSend (S := S) hstaged rfl
    (hsCreateInitiation S.env.prims r.hs).hsPacket.toList
  have hsame : (sessionStageDest { r with hs := hsCreateInitiation S.env.prims r.hs }).hs =
      hsCreateInitiation S.env.prims r.hs := rfl
  rw [hsame]
  generalize (sessionStageDest { r with
    hs := hsCreateInitiation S.env.prims r.hs }).netUdpSend S.env _ = q at *
  split
  · rw [sessionSendFailed]
    exact hprepare.stays ((Stays.sessionReset hsend).printString _)
  · exact hprepare.stays (hsend.elsewhere rfl rfl)

theorem handleType3_goes (m : Machine (World δ ω)) : Goes m (handleType3 S.env m) := by
  rw [handleType3]
  split
  · have hcall : Stays false m (callCookieHandleType3 S.env m).2 :=
      (Stays.refl false m).elsewhere rfl rfl
    generalize callCookieHandleType3 S.env m = r at *
    dsimp only
    split
    · exact (sessionInitiate_goes _).after (hcall.printString _)
    · exact Or.inl hcall.silent
  · exact Or.inl (.refl true m)

theorem handleType4_goes (m : Machine (World δ ω)) : Goes m (handleType4 S.env m) := by
  rw [handleType4]
  split
  · have hcall : Stays false m (callTransportDecrypt S.env m).2 :=
      (Stays.refl false m).elsewhere rfl rfl
    generalize callTransportDecrypt S.env m = r at *
    dsimp only
    split
    · have hupdate := (endpointUpdate_goes (S := S) r.2).after hcall
      exact hupdate.stays (Stays.routePayload (.refl true _))
    · exact Or.inl (hcall.silent.printString _)
  · exact Or.inl (.refl true m)

theorem sessionHandlePacket_goes (m : Machine (World δ ω)) :
    Goes m (sessionHandlePacket S.env m) := by
  have hready : Stays false m { m with udp := { m.udp with udpRecvReady := false } } :=
    (Stays.refl false m).elsewhere rfl rfl
  rw [sessionHandlePacket]
  dsimp only
  split_ifs
  · exact Or.inl (Stays.handleType2 hready.silent)
  · exact (handleType3_goes _).after hready
  · exact (handleType4_goes _).after hready
  · exact Or.inl hready.silent

theorem pollAndHandle_goes (m : Machine (World δ ω)) : Goes m (pollAndHandle S.env m) := by
  have hstart := Stays.elapse (S := S) (Stays.refl false m)
  rw [pollAndHandle]
  generalize m.elapse S.env = r at *
  have hpoll := Stays.netPoll (S := S) hstart
  generalize S.env.net.netPoll r.netUdpDest r.udp r.world = q at *
  dsimp only
  split
  · split
    · exact (sessionHandlePacket_goes _).after hpoll
    · exact Or.inl hpoll.silent
  · exact Or.inl hstart.silent

theorem runCommand_goes (c : Command) (m : Machine (World δ ω)) : Goes m (runCommand S.env m c) := by
  by_cases hc : c = .handshake
  · subst hc
    have hentropy : Stays false m (entropyInit S.env (m.printString .hsStartMsg)) :=
      (Stays.refl false m).elsewhere rfl rfl
    exact (sessionInitiate_goes _).after hentropy
  · exact Or.inl (Stays.runCommand (.refl true m) hc)

/-! ## Operations -/

/-- The calls of the program that reach the adapter, and those that the main loop is made of. -/
inductive Operation
  | netInit
  | netDhcpAcquire
  | netPoll
  | netUdpClose
  | configLoad
  | endpointUpdate
  | sessionReset
  | sessionInitiate
  | transportSend (sender : Sender)
  | sessionHandlePacket
  | pollAndHandle
  | timerCheck
  | command (c : Command)

/-- Make a call. -/
def operate (S : Setup δ ω) (m : Machine (World δ ω)) : Operation → Machine (World δ ω)
  | .netInit => { m with world := (S.env.net.netInit m.world).1 }
  | .netDhcpAcquire => { m with world := (S.env.net.netDhcpAcquire m.world).1 }
  | .netPoll =>
    let r := S.env.net.netPoll m.netUdpDest m.udp m.world
    { m with world := r.1, udp := r.2 }
  | .netUdpClose => m.netUdpClose S.env
  | .configLoad => (configLoad S.env m).2
  | .endpointUpdate => endpointUpdate S.env m
  | .sessionReset => sessionReset S.env m
  | .sessionInitiate => sessionInitiate S.env m
  | .transportSend sender => (transportSend S.env sender m).1
  | .sessionHandlePacket => sessionHandlePacket S.env m
  | .pollAndHandle => pollAndHandle S.env m
  | .timerCheck => timerCheck S.env m
  | .command c => runCommand S.env m c

/-- **What an operation does to the socket and the peer.** -/
theorem operate_goes (m : Machine (World δ ω)) (o : Operation) : Goes m (operate S m o) := by
  cases o with
  | netInit => exact Or.inl (Stays.netInit (.refl true m))
  | netDhcpAcquire => exact Or.inl (Stays.netDhcpAcquire (.refl true m))
  | netPoll => exact Or.inl (Stays.netPoll (.refl true m))
  | netUdpClose => exact Or.inl (Stays.netUdpClose (.refl true m))
  | configLoad => exact configLoad_goes m
  | endpointUpdate => exact endpointUpdate_goes m
  | sessionReset => exact Or.inl (Stays.sessionReset (.refl true m))
  | sessionInitiate => exact sessionInitiate_goes m
  | transportSend sender => exact Or.inl (Stays.transportSend (.refl true m) sender)
  | sessionHandlePacket => exact sessionHandlePacket_goes m
  | pollAndHandle => exact pollAndHandle_goes m
  | timerCheck => exact Or.inl (Stays.timerCheck (.refl true m))
  | command c => exact runCommand_goes c m

/-- The states that operations lead to, in any order. In between, all cells but `wg_peer` may take
any value, those of the configuration and of the session included. -/
inductive Reachable (S : Setup δ ω) : Machine (World δ ω) → Prop
  | start {m : Machine (World δ ω)} {dev : δ}
      (adapter : m.world.adapter = some ⟨UciMem.start, dev, []⟩) : Reachable S m
  | operate {m : Machine (World δ ω)} (h : Reachable S m) (o : Operation) :
      Reachable S (operate S m o)
  | elsewhere {m m' : Machine (World δ ω)} (h : Reachable S m) (peer : m'.wgPeer = m.wgPeer)
      (adapter : m'.world.adapter = m.world.adapter) : Reachable S m'

/-- The main loop stays among them. -/
theorem Reachable.mainLoop {m : Machine (World δ ω)} (h : Reachable S m) :
    Reachable S (mainLoop S.env m).1 := by
  have hstep : Reachable S (getCommand S.env (timerCheck S.env (pollAndHandle S.env m))).2 :=
    ((h.operate .pollAndHandle).operate .timerCheck).elsewhere rfl rfl
  rw [C64WireGuard.mainLoop]
  generalize getCommand S.env (timerCheck S.env (pollAndHandle S.env m)) = r at *
  split
  · exact hstep
  · rename_i c hc
    exact hstep.operate (.command c)

theorem Reachable.run {m : Machine (World δ ω)} (h : Reachable S m) (n : Nat) :
    Reachable S (run S.env n m) := by
  induction n generalizing m with
  | zero => exact h
  | succ n ih =>
    rw [C64WireGuard.run]
    split
    · exact ih h.mainLoop
    · exact h.mainLoop

/-! ## A sample -/

/-- Stand-ins for the crypto library: the packet goes out as it is. -/
def samplePrims : Primitives where
  x25519Clamp k := k
  x25519Scalarmult _ u := u
  x25519Base k := k
  aeadEncrypt _ _ _ _ data := some (data, zero 16)
  aeadDecrypt _ _ _ _ data _ := (true, data)
  chacha20Init _ _ _ := zero 64
  chacha20QuarterRound _ w := w

/-- The program with a device that plays back a script. -/
def sampleSetup : Setup (List UInt8) Unit where
  prims := samplePrims
  build := largerBuild
  host := ⟨fun w => (w, 0), fun _ w => (w, 0), fun w => (w, 0), fun w => (w, []), fun w => (w, none)⟩
  device := scriptDevice
  packetAt := fun _ => 0x4000
  recvBufAt := 0x5000
  recvBufAt_le := by decide
  fuel := 50

/-- Socket 7 is handed out, and a write of 32 bytes is taken. -/
def sampleScript : List UInt8 :=
  [0, 0, 0, 0, 0, 0, 0, 0, 0, 0, 0, 0, 0, 0, 0, 0, 0x80, 7, 0, 0, 0, 0, 0, 0,
    0, 0, 0, 0, 0, 0, 0, 0, 0, 0, 0x80, 32, 0, 0, 0x80, 0]

/-- The peer is 10.0.0.2, port 51820. -/
def sampleStart : Machine (World (List UInt8) Unit) :=
  { Machine.start 0 ⟨some ⟨UciMem.start, sampleScript, []⟩, ()⟩ 0 with
    wgPeer := ⟨ofList 4 [10, 0, 0, 2], #v[0xca, 0x6c]⟩ }

/-- The state after a keepalive was sent. -/
def sampleSent : Machine (World (List UInt8) Unit) :=
  operate sampleSetup sampleStart (.transportSend .keepalive)

theorem reachable_sampleSent : Reachable sampleSetup sampleSent := by
  have hstart : sampleStart.world.adapter = some ⟨UciMem.start, sampleScript, []⟩ := rfl
  exact .operate (.start hstart) _

theorem sampleSent_returns : sampleSent.world.adapter.isSome := by decide +kernel

end C64WireGuard.Uci
