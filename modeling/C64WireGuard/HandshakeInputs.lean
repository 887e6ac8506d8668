import C64WireGuard.Machine

/-!
# `entropy.s`, `tai64n.s`, `config.s`: what a handshake is built from

Random bytes from the sound chip and a timer, a TAI64N timestamp from the jiffy clock, and keys and
endpoint from the staged configuration. Multi-byte sums are numbers with an explicit modulus; the
division of `tai64n_now` is the source's loop.
-/

namespace C64WireGuard

open Bytes

variable {σ : Type}

/-! ## Random bytes -/

/-- `entropy_init`. -/
def entropyInit (env : Env σ) (m : Machine σ) : Machine σ :=
  let m := m.elapse env
  let taLo := env.host.readReg .cia1TaLo m.world
  let taHi := env.host.readReg .cia1TaHi taLo.1
  let raster := env.host.readReg .vicRaster taHi.1
  let osc3 := env.host.readReg .sidOsc3 raster.1
  { m with
    entropyState := m.entropyState ^^^ byte m.jiffy 2 ^^^ byte m.jiffy 1 ^^^ taLo.2 ^^^ taHi.2 ^^^
      raster.2 ^^^ osc3.2
    world := osc3.1 }

/-- One pass of the loop of `entropy_fill`: `rol`, two reads, and the carry `rol` leaves. -/
def entropyByte (env : Env σ) (carry : Bool) (m : Machine σ) : Bool × Machine σ :=
  let osc3 := env.host.readReg .sidOsc3 m.world
  let taLo := env.host.readReg .cia1TaLo osc3.1
  (decide (0x80 ≤ m.entropyState),
    { m with
      entropyState := ((m.entropyState <<< 1) ||| if carry then 1 else 0) ^^^ osc3.2 ^^^ taLo.2
      world := taLo.1 })

/-- `@loop` of `entropy_fill`. The buffer is filled from its end. -/
def entropyLoop (env : Env σ) : Nat → List UInt8 → Bool → Machine σ → List UInt8 × Bool × Machine σ
  | 0, filled, carry, m => (filled, carry, m)
  | y + 1, filled, carry, m =>
      let r := entropyByte env carry m
      entropyLoop env y (r.2.entropyState :: filled) r.1 r.2

/-- `entropy_fill` of `n` bytes. The carry runs through from the caller. -/
def entropyFill (env : Env σ) (n : Nat) (carry : Bool) (m : Machine σ) :
    Bytes n × Bool × Machine σ :=
  let r := entropyLoop env n [] carry m
  (ofList n r.1, r.2)

/-! ## Timestamps -/

/-- `tai64n_init`: anchor the timeline at the clock's reading. -/
def tai64nInit (jiffy : Bytes 3) (baseTime : Bytes 8) (tai : TaiMem) : TaiMem × Bytes 12 :=
  ({ tai with
      tai64nInitJiffy := jiffy
      tai64nInitBase := baseTime
      tai64nSeq := zero 4 },
    copyIn (zero 12) 0 baseTime)

/-- `tai64n_sync`: anchor again only when the base time changed. -/
def tai64nSync (jiffy : Bytes 3) (baseTime : Bytes 8) (tai : TaiMem) (ts : Bytes 12) :
    TaiMem × Bytes 12 :=
  if baseTime = tai.tai64nInitBase then (tai, ts) else tai64nInit jiffy baseTime tai

/-- The carry `tai64n_sync` returns with: that of its last byte comparison, from byte 7 down. -/
def syncCarry (baseTime initBase : Bytes 8) : Bool :=
  (List.zip baseTime.toList initBase.toList).reverse.find? (fun b => b.1 != b.2) |>.all
    fun b => decide (b.2 ≤ b.1)

/-- Jiffies since the anchor, a day added after a rollover. -/
def elapsedJiffies (now anchor : Bytes 3) : Nat :=
  let d := (be now + 2 ^ 24 - be anchor) % 2 ^ 24
  if be now < be anchor then (d + jiffyPeriod) % 2 ^ 24 else d

/-- `@div_loop`: division by 60 by subtraction. -/
def divLoop : Nat → Nat → Nat → Nat
  | 0, _, seconds => seconds
  | fuel + 1, elapsed, seconds =>
      if elapsed < 60 then seconds else divLoop fuel (elapsed - 60) ((seconds + 1) % 2 ^ 24)

/-- The timestamp before the guard, and the sequence number in it. -/
def tai64nCandidate (now : Bytes 3) (baseTime : Bytes 8) (tai : TaiMem) : Bytes 4 × Bytes 12 :=
  let elapsed := elapsedJiffies now tai.tai64nInitJiffy
  let seconds := divLoop elapsed elapsed 0
  let seq := ofBe 4 ((be tai.tai64nSeq + 1) % 2 ^ 32)
  (seq, copyIn (copyIn (zero 12) 0 (ofBe 8 ((be baseTime + seconds) % 2 ^ 64))) 8 seq)

/-- `tai64n_increment`. -/
def tai64nIncrement (ts : Bytes 12) : Bytes 12 :=
  let nano := be (slice ts 8 4) + 1
  if nano < 2 ^ 32 then copyIn ts 8 (ofBe 4 nano)
  else copyIn (copyIn ts 8 (zero 4)) 0 (ofBe 8 ((be (slice ts 0 8) + 1) % 2 ^ 64))

/-- `tai64n_now`: never at or below the last timestamp emitted. -/
def tai64nNow (now : Bytes 3) (baseTime : Bytes 8) (tai : TaiMem) : TaiMem × Bytes 12 :=
  let c := tai64nCandidate now baseTime tai
  let ts := if be c.2 ≤ be tai.tai64nLast then tai64nIncrement tai.tai64nLast else c.2
  ({ tai with tai64nSeq := c.1, tai64nLast := ts }, ts)

/-! ## Configuration -/

/-- `@priv`, `@pub` and `@peer` of `config_load`. -/
def loadKeys (m : Machine σ) : Machine σ :=
  { m with
    hs := { m.hs with
      hsStaticPriv := m.cfg.cfgStaticPriv
      hsStaticPub := m.cfg.cfgStaticPub
      hsRespPub := m.cfg.cfgPeerPub } }

/-- `@endpoint` of `config_load`. The socket is closed only when the endpoint moves. -/
def loadEndpoint (env : Env σ) (m : Machine σ) : Machine σ :=
  let moved := { m with wgPeer := m.cfg.cfgPeerEndpoint }
  if m.cfg.cfgPeerEndpoint = m.wgPeer then moved else moved.netUdpClose env

/-- `@psk` of `config_load`. -/
def loadPsk (m : Machine σ) : Machine σ :=
  { m with hs := { m.hs with hsPresharedKey := m.cfg.cfgPresharedKey } }

/-- The call of `tai64n_sync`. -/
def syncTimeline (m : Machine σ) : Machine σ :=
  let r := tai64nSync m.jiffy m.cfg.tai64nBaseTime m.tai m.hs.hsTimestamp
  { m with tai := r.1, hs := { m.hs with hsTimestamp := r.2 } }

/-- `config_load`, and the carry it returns with. -/
def configLoad (env : Env σ) (m : Machine σ) : Bool × Machine σ :=
  let m := loadPsk (loadEndpoint env (loadKeys m))
  let m := m.elapse env
  (syncCarry m.cfg.tai64nBaseTime m.tai.tai64nInitBase, syncTimeline m)

end C64WireGuard
