import C64WireGuard.Lib.Alu
import C64WireGuard.Machine

/-!
# `net/ip65/net.s`: the receive callback

`net_udp_recv_cb` runs while `ip65_process` has a datagram in the blob's input buffer. It takes the
payload length from the UDP header, byte by byte, and copies the payload with a loop that patches its
own addresses. A length field below the 8 bytes of the header wraps, and the buffer is delivered as it
was left by earlier packets (`netUdpRecvCb_meets_iff`).
-/

namespace C64WireGuard.Ip65

open Alu Bytes

/-! ## Cells -/

/-- `ip65_udp_inp`, the UDP header of the datagram in the blob's memory. -/
def ip65UdpInp : Nat := 0xa12b

/-- Where `udp_recv_buf` is: below the blob's own memory. -/
structure Layout where
  udpRecvBuf : Nat
  fits : udpRecvBuf + udpRecvBufSize ≤ 0xa000

/-- The cells of the adapter, and memory. -/
structure Ip65Mem where
  ram : Nat → UInt8
  udpRecvLen : Cell16
  udpRecvSrc : Endpoint
  udpRecvReady : UInt8
  udpCopyRem : Cell16
  wgLocalPort : Cell16
  ip65Listening : UInt8
  ip65ListenPort : Cell16
  netLastError : UInt8
  ip65SendPump : UInt8
  ip65SendAttempts : UInt8
  ip65RecvDropped : UInt8

/-- `inc` of a counter that stops at `$ff`. -/
def saturatingInc (b : UInt8) : UInt8 := if b = 0xff then b else b + 1

/-! ## `net_udp_recv_cb` -/

/-- The UDP length field less the header. -/
def payloadLen (ram : Nat → UInt8) : Cell16 :=
  let low := sbc (ram (ip65UdpInp + 5)) 8 true
  let high := ram (ip65UdpInp + 4)
  ⟨low.1, if low.2 then high else high - 1⟩

/-- The cap at 1500. -/
def capLen (len : Cell16) : Cell16 :=
  let tooLarge : Cell16 := ⟨0xdc, 0x05⟩
  if len.hi < 0x05 then len
  else if len.hi ≠ 0x05 then tooLarge
  else if len.lo < 0xdc ∨ len.lo = 0xdc then len
  else tooLarge

/-- `@cp_loop`: `ld` and `st` are the patched addresses. -/
def cpLoop : Nat → Cell16 → Cell16 → Cell16 → UInt8 → (Nat → UInt8) → Cell16 × (Nat → UInt8)
  | 0, rem, _, _, _, ram => (rem, ram)
  | fuel + 1, rem, ld, st, y, ram =>
    if rem.lo ||| rem.hi = 0 then (rem, ram)
    else
      let v := ram ((ld.toNat + y.toNat) % 65536)
      let ram := fun a => if a = (st.toNat + y.toNat) % 65536 then v else ram a
      if y + 1 = 0 then
        cpLoop fuel rem.dec { ld with hi := ld.hi + 1 } { st with hi := st.hi + 1 } 0 ram
      else cpLoop fuel rem.dec ld st (y + 1) ram

/-- Source address and port of the datagram. -/
def datagramSrc (ram : Nat → UInt8) : Endpoint where
  ip := tabulate 4 fun i => ram (ip65UdpInp - 8 + i)
  port := tabulate 2 fun i => ram (ip65UdpInp + i)

/-- `net_udp_recv_cb`. -/
def netUdpRecvCb (L : Layout) (m : Ip65Mem) : Ip65Mem :=
  if m.ip65SendPump ≠ 0 then { m with ip65RecvDropped := saturatingInc m.ip65RecvDropped }
  else
    let len := capLen (payloadLen m.ram)
    let m := { m with udpRecvLen := len }
    if len.lo ||| len.hi = 0 then m
    else
      let copied := cpLoop 65536 len (.ofNat (ip65UdpInp + 8)) (.ofNat L.udpRecvBuf) 0 m.ram
      { m with
        ram := copied.2
        udpCopyRem := copied.1
        udpRecvSrc := datagramSrc copied.2
        udpRecvReady := 1 }

/-! ## The length -/

/-- The UDP length field of the datagram. -/
def udpLen (ram : Nat → UInt8) : Nat :=
  256 * (ram (ip65UdpInp + 4)).toNat + (ram (ip65UdpInp + 5)).toNat

theorem toNat_payloadLen (ram : Nat → UInt8) :
    (payloadLen ram).toNat = (udpLen ram + 65528) % 65536 := by
  have hsum := sbc_spec (ram (ip65UdpInp + 5)) 8 true
  have hlow := (sbc (ram (ip65UdpInp + 5)) 8 true).1.toNat_lt
  have hin := (ram (ip65UdpInp + 5)).toNat_lt
  have hhigh := (ram (ip65UdpInp + 4)).toNat_lt
  rw [payloadLen, udpLen, Cell16.toNat]
  generalize ram (ip65UdpInp + 4) = high at *
  generalize sbc (ram (ip65UdpInp + 5)) 8 true = low at *
  generalize (ram (ip65UdpInp + 5)).toNat = byte at *
  have height : (8 : UInt8).toNat = 8 := rfl
  rw [height, Bool.toNat_true] at hsum
  cases hc : low.2 with
  | true =>
    rw [hc, Bool.toNat_true] at hsum
    rw [if_pos rfl]
    dsimp only
    omega
  | false =>
    rw [hc, Bool.toNat_false] at hsum
    rw [if_neg Bool.false_ne_true, UInt8.toNat_sub]
    have hone : (1 : UInt8).toNat = 1 := rfl
    rw [hone]
    dsimp only
    omega

theorem toNat_capLen (len : Cell16) : (capLen len).toNat = min len.toNat 1500 := by
  have hsum : len.toNat = len.lo.toNat + 256 * len.hi.toNat := rfl
  have hlo := len.lo.toNat_lt
  have hcap : (⟨0xdc, 0x05⟩ : Cell16).toNat = 1500 := rfl
  rw [capLen]
  split_ifs with hhi hne hle
  · have : len.hi.toNat < 5 := hhi
    omega
  · have hne : len.hi.toNat ≠ 5 := fun h => hne (UInt8.toNat_inj.mp h)
    have : ¬ len.hi.toNat < 5 := hhi
    rw [hcap]
    omega
  · have heq : len.hi.toNat = 5 := congrArg UInt8.toNat (not_not.mp hne)
    have hle : len.lo.toNat ≤ 220 := by
      rcases hle with h | h
      · exact Nat.le_of_lt h
      · rw [h]
        rfl
    omega
  · have heq : len.hi.toNat = 5 := congrArg UInt8.toNat (not_not.mp hne)
    have hlt : ¬ len.lo.toNat < 220 := fun h => hle (.inl h)
    rw [hcap]
    omega

/-! ## The copy -/

/-- The address of the next page, before the offset in it. -/
theorem toNat_nextPage {c : Cell16} (h : c.toNat + 256 < 65536) :
    ({ c with hi := c.hi + 1 } : Cell16).toNat + (0 : UInt8).toNat = c.toNat + 256 := by
  have hsum : c.toNat = c.lo.toNat + 256 * c.hi.toNat := rfl
  have hhi : (c.hi + 1).toNat = c.hi.toNat + 1 := by
    rw [UInt8.toNat_add]
    have hone : (1 : UInt8).toNat = 1 := rfl
    rw [hone]
    omega
  have hzero : (0 : UInt8).toNat = 0 := rfl
  rw [Cell16.toNat, hhi, hzero]
  dsimp only
  omega

/-- **The copy loop** moves `rem` bytes up to a place that lies below them, and no others. `s` and `d`
are the addresses of the next byte. -/
theorem cpLoop_spec {fuel : Nat} {rem ld st : Cell16} {y : UInt8} {ram : Nat → UInt8} {s d : Nat}
    (hs : ld.toNat + y.toNat = s) (hd : st.toNat + y.toNat = d) (hfuel : rem.toNat < fuel)
    (hend : s + rem.toNat < 65536) (hbelow : d + rem.toNat ≤ s) (a : Nat) :
    (cpLoop fuel rem ld st y ram).2 a =
      if d ≤ a ∧ a < d + rem.toNat then ram (s + (a - d)) else ram a := by
  induction fuel generalizing rem ld st y ram s d with
  | zero => exact absurd hfuel (Nat.not_lt_zero _)
  | succ fuel ih =>
    rw [cpLoop]
    by_cases hzero : rem.lo ||| rem.hi = 0
    · rw [if_pos hzero, if_neg]
      have := (Cell16.or_eq_zero_iff rem).mp hzero
      omega
    · have hpos : 0 < rem.toNat :=
        Nat.pos_of_ne_zero fun h => hzero ((Cell16.or_eq_zero_iff rem).mpr h)
      have hdec := Cell16.toNat_dec hpos
      have hy := y.toNat_lt
      rw [if_neg hzero]
      dsimp only
      rw [hs, hd, Nat.mod_eq_of_lt (by omega : s < 65536), Nat.mod_eq_of_lt (by omega : d < 65536)]
      -- what the rest of the loop does to the memory with this byte written
      have hrest : ∀ {ld' st' : Cell16} {y' : UInt8}, ld'.toNat + y'.toNat = s + 1 →
          st'.toNat + y'.toNat = d + 1 →
          (cpLoop fuel rem.dec ld' st' y' fun a => if a = d then ram s else ram a).2 a =
            if d ≤ a ∧ a < d + rem.toNat then ram (s + (a - d)) else ram a := by
        intro ld' st' y' hs' hd'
        rw [ih hs' hd' (by omega) (by omega) (by omega)]
        by_cases hfirst : a = d
        · subst hfirst
          rw [if_neg (by omega), if_pos rfl, if_pos (by omega), Nat.sub_self, Nat.add_zero]
        · by_cases hin : d ≤ a ∧ a < d + rem.toNat
          · rw [if_pos (by omega), if_neg (by omega), if_pos hin]
            congr 1
            omega
          · rw [if_neg (by omega), if_neg hfirst, if_neg hin]
      by_cases hwrap : y + 1 = 0
      · have hy255 : y.toNat = 255 := by
          have := congrArg UInt8.toNat hwrap
          rw [UInt8.toNat_add] at this
          have hone : (1 : UInt8).toNat = 1 := rfl
          have hzero : (0 : UInt8).toNat = 0 := rfl
          rw [hone, hzero] at this
          omega
        rw [if_pos hwrap]
        exact hrest ((toNat_nextPage (by omega)).trans (by omega))
          ((toNat_nextPage (by omega)).trans (by omega))
      · have hnext : (y + 1).toNat = y.toNat + 1 := by
          have hne : y.toNat ≠ 255 := fun h => hwrap (by rw [← UInt8.toNat_inj, UInt8.toNat_add, h]; rfl)
          rw [UInt8.toNat_add]
          have hone : (1 : UInt8).toNat = 1 := rfl
          rw [hone]
          omega
        rw [if_neg hwrap]
        exact hrest (by omega) (by omega)

/-! ## What the callback does -/

/-- `n` bytes of the datagram in `m` are delivered, and nothing else is written. -/
structure Delivers (L : Layout) (m m' : Ip65Mem) (n : Nat) : Prop where
  ready : m'.udpRecvReady = 1
  len : m'.udpRecvLen.toNat = n
  payload : ∀ i, i < n → m'.ram (L.udpRecvBuf + i) = m.ram (ip65UdpInp + 8 + i)
  only : ∀ a, ¬ (L.udpRecvBuf ≤ a ∧ a < L.udpRecvBuf + n) → m'.ram a = m.ram a
  src : m'.udpRecvSrc = datagramSrc m.ram

/-- Nothing is delivered. -/
structure Withholds (m m' : Ip65Mem) : Prop where
  ready : m'.udpRecvReady = m.udpRecvReady
  ram : m'.ram = m.ram
  src : m'.udpRecvSrc = m.udpRecvSrc

/-- The length the callback goes by. -/
theorem toNat_recvLen (ram : Nat → UInt8) :
    (capLen (payloadLen ram)).toNat = min ((udpLen ram + 65528) % 65536) 1500 := by
  rw [toNat_capLen, toNat_payloadLen]

theorem netUdpRecvCb_withholds (L : Layout) {m : Ip65Mem} (hpump : m.ip65SendPump = 0)
    (hlen : (capLen (payloadLen m.ram)).toNat = 0) : Withholds m (netUdpRecvCb L m) := by
  rw [netUdpRecvCb, if_neg (not_not.mpr hpump)]
  dsimp only
  rw [if_pos ((Cell16.or_eq_zero_iff _).mpr hlen)]
  exact ⟨rfl, rfl, rfl⟩

/-- The source address and port lie behind everything that is written. -/
theorem datagramSrc_congr {ram ram' : Nat → UInt8} (h : ∀ a, 0xa000 ≤ a → ram' a = ram a) :
    datagramSrc ram' = datagramSrc ram := by
  have hip : ∀ i, ram' (ip65UdpInp - 8 + i) = ram (ip65UdpInp - 8 + i) :=
    fun i => h _ (by unfold ip65UdpInp; omega)
  have hport : ∀ i, ram' (ip65UdpInp + i) = ram (ip65UdpInp + i) :=
    fun i => h _ (by unfold ip65UdpInp; omega)
  rw [datagramSrc, datagramSrc, funext hip, funext hport]

/-- **A datagram is delivered** whenever the length, less the header and capped, is not 0. -/
theorem netUdpRecvCb_delivers (L : Layout) {m : Ip65Mem} (hpump : m.ip65SendPump = 0)
    (hlen : (capLen (payloadLen m.ram)).toNat ≠ 0) :
    Delivers L m (netUdpRecvCb L m) (capLen (payloadLen m.ram)).toNat := by
  have hfits := L.fits
  have hcap : (capLen (payloadLen m.ram)).toNat ≤ 1500 := by
    rw [toNat_capLen]
    exact min_le_right _ _
  have hsize : udpRecvBufSize = 1500 := rfl
  rw [netUdpRecvCb, if_neg (not_not.mpr hpump)]
  dsimp only
  rw [if_neg fun h => hlen ((Cell16.or_eq_zero_iff _).mp h)]
  generalize capLen (payloadLen m.ram) = len at hlen hcap ⊢
  have hzero : (0 : UInt8).toNat = 0 := rfl
  have hcopy : ∀ a, (cpLoop 65536 len (.ofNat (ip65UdpInp + 8)) (.ofNat L.udpRecvBuf) 0 m.ram).2 a =
      if L.udpRecvBuf ≤ a ∧ a < L.udpRecvBuf + len.toNat then
        m.ram (ip65UdpInp + 8 + (a - L.udpRecvBuf)) else m.ram a :=
    cpLoop_spec (by rw [Cell16.toNat_ofNat, hzero]; unfold ip65UdpInp; omega)
      (by rw [Cell16.toNat_ofNat, hzero]; omega) (by omega)
      (by unfold ip65UdpInp; omega) (by unfold ip65UdpInp; omega)
  refine ⟨rfl, rfl, fun i hi => ?_, fun a ha => ?_, ?_⟩
  · refine (hcopy _).trans ?_
    rw [if_pos (by omega), Nat.add_sub_cancel_left]
  · exact (hcopy a).trans (if_neg ha)
  · exact datagramSrc_congr fun a ha => (hcopy a).trans (if_neg (by omega))

theorem toNat_saturatingInc (b : UInt8) : (saturatingInc b).toNat = min (b.toNat + 1) 255 := by
  have hlt := b.toNat_lt
  rw [saturatingInc]
  by_cases h : b = 0xff
  · rw [if_pos h, h]
    rfl
  · have hne : b.toNat ≠ 255 := fun heq => h (UInt8.toNat_inj.mp heq)
    have hone : (1 : UInt8).toNat = 1 := rfl
    rw [if_neg h, UInt8.toNat_add, hone]
    omega

/-- What the callback is for: a payload of 1 to 1500 bytes is delivered, a longer one up to 1500
bytes, an empty one not at all; nothing behind the buffer is written; and while a send pumps, a
datagram is only counted. -/
structure Meets (L : Layout) (m : Ip65Mem) : Prop where
  short : m.ip65SendPump = 0 → udpLen m.ram ≤ 8 → Withholds m (netUdpRecvCb L m)
  fits : m.ip65SendPump = 0 → 8 < udpLen m.ram → udpLen m.ram ≤ 1508 →
    Delivers L m (netUdpRecvCb L m) (udpLen m.ram - 8)
  long : m.ip65SendPump = 0 → 1508 < udpLen m.ram → Delivers L m (netUdpRecvCb L m) 1500
  bound : ∀ a, ¬ (L.udpRecvBuf ≤ a ∧ a < L.udpRecvBuf + 1500) → (netUdpRecvCb L m).ram a = m.ram a
  pump : m.ip65SendPump ≠ 0 → ∃ count : UInt8, count.toNat = min (m.ip65RecvDropped.toNat + 1) 255 ∧
    netUdpRecvCb L m = { m with ip65RecvDropped := count }

/-- What would be delivered of a datagram shorter than its header is there already. -/
def AlreadyThere (L : Layout) (m : Ip65Mem) : Prop :=
  m.udpRecvReady = 1 ∧ (∀ i, i < 1500 → m.ram (L.udpRecvBuf + i) = m.ram (ip65UdpInp + 8 + i)) ∧
    m.udpRecvSrc = datagramSrc m.ram

theorem udpLen_lt (ram : Nat → UInt8) : udpLen ram < 65536 := by
  have hlo := (ram (ip65UdpInp + 5)).toNat_lt
  have hhi := (ram (ip65UdpInp + 4)).toNat_lt
  unfold udpLen
  omega

/-- **The receive callback.** For every layout and every content of memory and cells, it does what it
is for exactly when a send pumps, or the length field is at least 8, or what it delivers is there
already. -/
theorem netUdpRecvCb_meets_iff (L : Layout) (m : Ip65Mem) :
    Meets L m ↔ m.ip65SendPump ≠ 0 ∨ 8 ≤ udpLen m.ram ∨ AlreadyThere L m := by
  have hlt := udpLen_lt m.ram
  have hlen := toNat_recvLen m.ram
  constructor
  · intro h
    by_cases hpump : m.ip65SendPump = 0
    · by_cases hheader : 8 ≤ udpLen m.ram
      · exact .inr (.inl hheader)
      · have hwithholds := h.short hpump (by omega)
        have hdelivers := netUdpRecvCb_delivers L hpump (by omega)
        refine .inr (.inr ⟨?_, fun i hi => ?_, ?_⟩)
        · rw [← hwithholds.ready, hdelivers.ready]
        · rw [← hdelivers.payload i (by omega), hwithholds.ram]
        · rw [← hwithholds.src, hdelivers.src]
    · exact .inl hpump
  · intro h
    have hbound : m.ip65SendPump = 0 → ∀ a, ¬ (L.udpRecvBuf ≤ a ∧ a < L.udpRecvBuf + 1500) →
        (netUdpRecvCb L m).ram a = m.ram a := by
      intro hpump a ha
      by_cases hzero : (capLen (payloadLen m.ram)).toNat = 0
      · rw [(netUdpRecvCb_withholds L hpump hzero).ram]
      · exact (netUdpRecvCb_delivers L hpump hzero).only a (by omega)
    by_cases hpump : m.ip65SendPump = 0
    · refine ⟨fun _ hshort => ?_, fun _ hgt hle => ?_, fun _ hgt => ?_, hbound hpump,
        fun hne => absurd hpump hne⟩
      · by_cases hheader : 8 ≤ udpLen m.ram
        · exact netUdpRecvCb_withholds L hpump (by omega)
        · obtain ⟨hready, hbuf, hsrc⟩ := (h.resolve_left (not_not.mpr hpump)).resolve_left hheader
          have hdelivers := netUdpRecvCb_delivers L hpump (by omega)
          refine ⟨by rw [hdelivers.ready, hready], funext fun a => ?_, by rw [hdelivers.src, hsrc]⟩
          by_cases hin : L.udpRecvBuf ≤ a ∧ a < L.udpRecvBuf + 1500
          · obtain ⟨i, rfl⟩ := Nat.exists_eq_add_of_le hin.1
            rw [hdelivers.payload i (by omega), hbuf i (by omega)]
          · exact hbound hpump a hin
      · have hdelivers := netUdpRecvCb_delivers L hpump (by omega)
        have heq : (capLen (payloadLen m.ram)).toNat = udpLen m.ram - 8 := by omega
        rwa [heq] at hdelivers
      · have hdelivers := netUdpRecvCb_delivers L hpump (by omega)
        have heq : (capLen (payloadLen m.ram)).toNat = 1500 := by omega
        rwa [heq] at hdelivers
    · have hcount : netUdpRecvCb L m = { m with ip65RecvDropped := saturatingInc m.ip65RecvDropped } :=
        if_pos hpump
      refine ⟨fun h => absurd h hpump, fun h => absurd h hpump, fun h => absurd h hpump, fun a _ => ?_,
        fun _ => ⟨_, toNat_saturatingInc _, hcount⟩⟩
      rw [hcount]

/-- The cells as they are loaded. -/
def Ip65Mem.start (ram : Nat → UInt8) : Ip65Mem where
  ram := ram
  udpRecvLen := .ofNat 0
  udpRecvSrc := ⟨zero 4, zero 2⟩
  udpRecvReady := 0
  udpCopyRem := .ofNat 0
  wgLocalPort := .ofNat 0
  ip65Listening := 0
  ip65ListenPort := .ofNat 0
  netLastError := 0
  ip65SendPump := 0
  ip65SendAttempts := 0
  ip65RecvDropped := 0

/-- A header that says 0 bytes, and memory full of `$41`: 1500 of them are delivered. -/
theorem netUdpRecvCb_stale :
    let L : Layout := ⟨0x8800, by decide⟩
    let m := Ip65Mem.start fun a => if a < ip65UdpInp + 8 then 0 else 0x41
    udpLen m.ram = 0 ∧ m.udpRecvReady = 0 ∧ (netUdpRecvCb L m).udpRecvReady = 1 ∧
      (netUdpRecvCb L m).udpRecvLen.toNat = 1500 ∧ ¬ Meets L m := by
  have hready := netUdpRecvCb_delivers ⟨0x8800, by decide⟩
    (m := Ip65Mem.start fun a => if a < ip65UdpInp + 8 then 0 else 0x41) rfl (by decide)
  have hlen : (capLen (payloadLen fun a => if a < ip65UdpInp + 8 then 0 else 0x41)).toNat = 1500 := by
    decide
  refine ⟨by decide, rfl, hready.ready, hready.len.trans hlen, fun h => ?_⟩
  have hwithholds := (h.short rfl (by decide)).ready
  rw [hready.ready] at hwithholds
  exact absurd hwithholds (by decide)

end C64WireGuard.Ip65
