import C64WireGuard.CookieLaws
import C64WireGuard.PacketFrames
import C64WireGuard.ScratchFree

/-!
# A cookie is used once

A cookie that a reply brought is consumed by the initiation sent at once, so none is held when the
main loop comes around. The log shows it: `Macs` says of every Type 1 packet in it that MAC2 is zero
or keyed with the cookie of a reply accepted just before, one that opened against the initiation
before. A reply that does not open changes scratch and the log alone, and nothing reads the scratch.
-/

namespace C64WireGuard

open Bytes

variable {σ : Type}

/-! ## MAC2 in the log -/

/-- MAC2 of a Type 1 packet is keyed with a cookie: since the initiation before `prev`, a reply came
that carries the sender index of `prev`, opened against its MAC1, and held the cookie. -/
def CookieFrom (p : Primitives) (log : List Event) (pkt : List UInt8) : Prop :=
  ∃ between pub udp older prev cookie,
    log = between ++ .cookieHandleType3 pub udp true :: older ∧ (∀ e ∈ between, e.Silent) ∧
    (initiations older).head? = some prev ∧
    (slice udp.udpRecvBuf 4 4).toList = (prev.drop 4).take 4 ∧
    openCookie p pub udp (ofList 16 (prev.drop 116)) = (true, cookie) ∧
    pkt.drop 132 = (Blake2s.digest 16 cookie.toList (pkt.take 132)).toList

/-- MAC2 of every Type 1 packet in a log is zero or keyed with a cookie. -/
def Macs (p : Primitives) : List Event → Prop
  | [] => True
  | e :: log =>
      (∀ pkt, e.initiation = some pkt →
        pkt.drop 132 = List.replicate 16 0 ∨ CookieFrom p log pkt) ∧ Macs p log

theorem Macs.append {p : Primitives} {log new : List Event} (h : Macs p log)
    (hnew : ∀ e ∈ new, e.Silent) : Macs p (new ++ log) := by
  induction new with
  | nil => exact h
  | cons e new ih =>
      refine ⟨fun pkt hpkt => ?_, ih fun e' he' => hnew e' (List.mem_cons_of_mem _ he')⟩
      rw [show e.initiation = none from hnew e List.mem_cons_self] at hpkt
      cases hpkt

/-- The law at a packet anywhere in the log. -/
theorem Macs.split {p : Primitives} {newer older : List Event} {dest : Endpoint} {pkt : List UInt8}
    {carry : Bool} (h : Macs p (newer ++ .netUdpSend dest pkt carry :: older))
    (hpkt : pkt.head? = some 1) :
    pkt.drop 132 = List.replicate 16 0 ∨ CookieFrom p older pkt := by
  induction newer with
  | nil => exact h.1 pkt (if_pos hpkt)
  | cons e newer ih => exact ih h.2

theorem Macs.keeps {p : Primitives} {m m' : Machine σ} (h : Macs p m.trace) (hk : Spares m m') :
    Macs p m'.trace := by
  obtain ⟨new, hlog, hsilent⟩ := hk.log
  rw [hlog]
  exact h.append hsilent

/-- The initiation that `session_initiate` sends: without a cookie, or with the one just accepted. -/
theorem Macs.sessionInitiate {env : Env σ} {m : Machine σ} (h : Macs env.prims m.trace)
    (hcookie : m.hs.cookieValid = true → ∀ pkt : List UInt8,
      pkt.drop 132 = (Blake2s.digest 16 (slice m.hs.cookieBuf 0 16).toList (pkt.take 132)).toList →
      CookieFrom env.prims (closedFor m ++ m.trace) pkt) :
    Macs env.prims (sessionInitiate env m).trace := by
  obtain ⟨newer, dest, carry, hlog, hsilent⟩ := sessionInitiate_log env m
  have hmac := congrArg Vector.toList (sessionInitiate_mac2 env m)
  rw [toList_slice _ (by decide), List.take_of_length_le (by simp)] at hmac
  generalize C64WireGuard.sessionInitiate env m = r at *
  rw [hlog]
  refine Macs.append ⟨fun pkt hpkt => ?_, h.append (silent_closedFor m)⟩ hsilent
  have hpkt' : r.hs.hsPacket.toList = pkt := by
    rw [Event.initiation] at hpkt
    split at hpkt
    · injection hpkt
    · cases hpkt
  rw [hpkt'] at hmac
  rw [mac2] at hmac
  by_cases hc : m.hs.cookieValid = true
  · rw [if_pos hc] at hmac
    exact .inr (hcookie hc pkt hmac)
  · rw [if_neg hc, toList_zero] at hmac
    exact .inl hmac

/-- An accepted reply, and the initiation it brings about. -/
theorem Macs.acceptType3 {env : Env σ} {m : Machine σ} (h : Macs env.prims m.trace)
    (hw : Waits env m) (hst : m.wgState = .hsSent)
    (hok : (callCookieHandleType3 env m).1 = true) :
    Macs env.prims (C64WireGuard.sessionInitiate env
      ((callCookieHandleType3 env m).2.printString .cookieRecvMsg)).trace := by
  obtain ⟨cm, -, heq⟩ := cookieHandleType3_spec env.prims m.cfg.cfgPeerPub m.udp m.hs
  have ho := hw.sent hst
  rw [callCookieHandleType3] at hok ⊢
  rw [heq] at hok ⊢
  split at hok
  · rename_i hpre
    rw [if_pos hpre]
    generalize hopen : openCookie env.prims m.cfg.cfgPeerPub m.udp (slice m.hs.hsPacket 116 16) = o
      at *
    obtain ⟨ok, cookie⟩ := o
    dsimp only at hok ⊢
    subst hok
    refine Macs.sessionInitiate ?_ ?_
    · have hsilent : ∀ e ∈ [Event.printString .cookieRecvMsg,
          .cookieHandleType3 m.cfg.cfgPeerPub m.udp true], e.Silent := by
        simp [Event.Silent, Event.initiation]
      exact h.append hsilent
    · intro _ pkt hpkt
      have hbuf : slice (copyIn m.hs.cookieBuf 0 cookie) 0 16 = cookie :=
        slice_copyIn_self _ _ (by decide)
      generalize hm' : Machine.printString _ Str.cookieRecvMsg = m' at *
      have hclosed : closedFor m' = closedFor m := by
        rw [← hm']
        rfl
      have htrace : m'.trace = .printString .cookieRecvMsg ::
          .cookieHandleType3 m.cfg.cfgPeerPub m.udp true :: m.trace := by
        rw [← hm']
        rfl
      have hcells : m'.hs.cookieBuf = copyIn m.hs.cookieBuf 0 cookie := by
        rw [← hm']
        rfl
      rw [hcells, hbuf] at hpkt
      refine ⟨closedFor m ++ [.printString .cookieRecvMsg], m.cfg.cfgPeerPub, m.udp,
        m.trace, m.hs.hsPacket.toList, cookie, ?_, ?_, ho.packet, ?_, ?_, hpkt⟩
      · rw [hclosed, htrace, List.append_assoc]
        rfl
      · intro e he
        rcases List.mem_append.mp he with he | he
        · exact silent_closedFor m e he
        · rw [List.mem_singleton] at he
          subst he
          rfl
      · rw [hpre.1, ← ho.index, toList_slice _ (by decide)]
      · have hmac : ofList 16 (m.hs.hsPacket.toList.drop 116) = slice m.hs.hsPacket 116 16 := by
          apply ext_byte
          intro i hi
          rw [byte_ofList, byte_slice, if_pos hi, if_pos hi, ← getD_toList,
            List.getD_eq_getElem?_getD, List.getD_eq_getElem?_getD, List.getElem?_drop]
        rw [hmac]
        exact hopen
  · cases hok

/-- **Every MAC2 in the log of a run** is zero or keyed with a cookie. -/
theorem run_macs (env : Env σ) (b2sKeyLen : UInt8) (world : σ) (ticks n : Nat) :
    Macs env.prims (run env n (Machine.start b2sKeyLen world ticks)).trace := by
  have hboth : Waits env (run env n (Machine.start b2sKeyLen world ticks)) ∧
      Macs env.prims (run env n (Machine.start b2sKeyLen world ticks)).trace := by
    refine run_invariant (P := fun m => Waits env m ∧ Macs env.prims m.trace)
      (fun m => mainLoop_rule (P := fun m => Waits env m ∧ Macs env.prims m.trace) ?_ ?_ ?_) n ⟨⟨rfl, fun hc => by cases hc⟩, trivial⟩
    · rintro m m' ⟨hw, hm⟩ hk
      exact ⟨hw.keeps hk, hm.keeps hk⟩
    · rintro m ⟨hw, hm⟩ hst hok
      exact ⟨sessionInitiate_waits env _, hm.acceptType3 hw hst hok⟩
    · rintro m ⟨hw, hm⟩
      refine ⟨sessionInitiate_waits env _, hm.sessionInitiate fun hc => ?_⟩
      rw [hw.cookieValid] at hc
      cases hc
  exact hboth.2

/-! ## Replies that do not open -/

/-- A reply that does not open, or comes when none is waited for, leaves a machine that is alike to
the one the packet never reached. -/
theorem sessionHandlePacket_forgedReply {env : Env σ} {m : Machine σ} (hw : Waits env m)
    (htype : byte m.udp.udpRecvBuf 0 = 3)
    (hno : m.wgState = .hsSent →
      (cookieHandleType3 env.prims m.cfg.cfgPeerPub m.udp m.hs).1 = false) :
    let r : Machine σ := { m with udp := { m.udp with udpRecvReady := false } }
    sessionHandlePacket env m = r ∨ Alike r (sessionHandlePacket env m) := by
  intro r
  by_cases hst : m.wgState = .hsSent
  · right
    have hr : r.hs = m.hs := rfl
    have ho := hw.sent hst
    obtain ⟨cm, hu, heq⟩ := cookieHandleType3_spec env.prims m.cfg.cfgPeerPub m.udp m.hs
    have hno := hno hst
    have hcall : (callCookieHandleType3 env r).1 = false := hno
    have hhandle := sessionHandlePacket_type3 env hst htype
    dsimp only at hhandle
    rw [hhandle, hcall, if_neg Bool.false_ne_true]
    have halike : m.hs.Alike (cookieHandleType3 env.prims m.cfg.cfgPeerPub m.udp m.hs).2 := by
      rw [heq] at hno ⊢
      generalize openCookie env.prims m.cfg.cfgPeerPub m.udp (slice m.hs.hsPacket 116 16) = o at *
      split
      · rename_i hpre
        rw [if_pos hpre] at hno
        refine ⟨⟨cm, m.hs.hsDhResult, copyIn m.hs.cookieBuf 0 o.2, ?_⟩, fun hc => ?_, ho.unkeyed, hu⟩
        · have ho₁ : o.1 = false := hno
          dsimp only
          rw [HsMem.withScratch, ho₁, Bool.or_false]
        · rw [hw.cookieValid] at hc
          cases hc
      · exact ⟨⟨m.hs.toCryptoMem, m.hs.hsDhResult, m.hs.cookieBuf, rfl⟩, fun _ => rfl, ho.unkeyed,
          ho.unkeyed⟩
    rw [callCookieHandleType3]
    have hargs : cookieHandleType3 env.prims r.cfg.cfgPeerPub r.udp r.hs =
        cookieHandleType3 env.prims m.cfg.cfgPeerPub m.udp m.hs := rfl
    rw [hargs]
    generalize cookieHandleType3 env.prims m.cfg.cfgPeerPub m.udp m.hs = c at *
    exact ⟨halike, ⟨c.2, _, rfl⟩, rfl⟩
  · left
    have hne : byte m.udp.udpRecvBuf 0 ≠ 2 := by
      rw [htype]
      decide
    simp only [sessionHandlePacket, if_neg hne, if_pos htype, handleType3, if_neg hst]
    rfl

/-- **A cookie is used once.** In every run: at every return to the main loop no cookie is held; every
Type 1 packet sent has a MAC2 of zeros, or one keyed with the cookie of a reply that opened against
the initiation before; and a Type 3 packet that does not open, whenever it comes, changes nothing
about the Type 1 packets sent from then on. -/
theorem run_cookieOnce (env : Env σ) (ha : AeadAccepts env.prims) (b2sKeyLen : UInt8) (world : σ)
    (ticks n : Nat) :
    let m := run env n (Machine.start b2sKeyLen world ticks)
    m.hs.cookieValid = false ∧
      (∀ newer dest pkt carry older, m.trace = newer ++ .netUdpSend dest pkt carry :: older →
        pkt.head? = some 1 →
        pkt.drop 132 = List.replicate 16 0 ∨ CookieFrom env.prims older pkt) ∧
      ∀ (udp : UdpRecv) (world' : σ) (ticks' : Nat), byte udp.udpRecvBuf 0 = 3 →
        (m.wgState = .hsSent →
          (cookieHandleType3 env.prims m.cfg.cfgPeerPub udp m.hs).1 = false) →
        ∀ k,
          initiations (resume env k (sessionHandlePacket env
              { m with udp := udp, world := world', ticks := ticks' })).trace =
            initiations (resume env k
              { m with
                udp := { udp with udpRecvReady := false }, world := world', ticks := ticks' }).trace := by
  intro m
  have hw : Waits env m := run_waits env b2sKeyLen world ticks n
  have hm : Macs env.prims m.trace := run_macs env b2sKeyLen world ticks n
  generalize m = m at *
  refine ⟨hw.cookieValid, fun newer dest pkt carry older htrace hpkt => ?_, ?_⟩
  · rw [htrace] at hm
    exact hm.split hpkt
  · intro udp world' ticks' htype hno k
    have hw' : Waits env { m with udp := udp, world := world', ticks := ticks' } :=
      hw.keeps ((Spares.refl m).elsewhere rfl rfl rfl)
    rcases sessionHandlePacket_forgedReply hw' htype hno with heq | halike
    · rw [heq]
    · exact (halike.resume_of ha (Alike.run ha k)).sent

/-- A Type 3 packet addressed to nobody, in `HS_SENT`. -/
theorem run_cookieOnce_forged :
    let m := run scripted 1 (scriptedStart [0x48])
    let udp := datagram (3 :: List.replicate 63 0xff)
    m.wgState = .hsSent ∧
      initiations (resume scripted 1 (sessionHandlePacket scripted
          { m with udp := udp, world := m.world, ticks := m.ticks })).trace =
        initiations (resume scripted 1
          { m with
            udp := { udp with udpRecvReady := false }, world := m.world, ticks := m.ticks }).trace := by
  have h := run_cookieOnce scripted rfcPrims_aeadAccepts 0
    { keys := [0x48], polls := 0, pause := 0 } 0 1
  refine ⟨by decide +kernel, h.2.2 _ _ _ ?_ (fun _ => ?_) 1⟩
  · decide +kernel
  · decide +kernel

end C64WireGuard
