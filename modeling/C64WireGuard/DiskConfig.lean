import C64WireGuard.Machine

/-!
# `disk_config.s`: the configuration file

`WG.CFG` is read through `CHRIN`, so a parser is a function from the bytes still to come to those
left over. Past the end `CHRIN` returns a carriage return, and bit 6 of `READST` is set once the
last byte has been read.
-/

namespace C64WireGuard

open Bytes

/-- `$0D`. -/
def cr : UInt8 := 0x0d

/-- `CHRIN`. -/
def chrin : List UInt8 → UInt8 × List UInt8
  | [] => (cr, [])
  | c :: cs => (c, cs)

/-- Bit 6 of `READST`. -/
def eof (file : List UInt8) : Bool := file.isEmpty

/-! ## Fields -/

/-- `hex_digit`, `none` for its carry. -/
def hexDigit (c : UInt8) : Option UInt8 :=
  if c < 0x30 then none
  else if c - 0x30 < 10 then some (c - 0x30)
  else
    let a := ((c - 0x30) &&& 0xdf) - 0x11
    if a < 6 then some (a + 10) else none

/-- `hex_to_bytes`: fill `buf` from offset `y` on, and the carry. What was stored before a bad
character stays stored. -/
def hexToBytes : Nat → Nat → Bytes 32 → List UInt8 → Bool × Bytes 32 × List UInt8
  | 0, _, buf, file => (false, buf, file)
  | n + 1, y, buf, file =>
      let hi := chrin file
      match hexDigit hi.1 with
      | none => (true, buf, hi.2)
      | some h =>
          let lo := chrin hi.2
          match hexDigit lo.1 with
          | none => (true, buf, lo.2)
          | some l => hexToBytes n (y + 1) (put buf y ((h <<< 4) ||| l)) lo.2

/-- `read_key_line`. The character behind the digits is dropped unread. -/
def readKeyLine (buf : Bytes 32) (file : List UInt8) : Bool × Bytes 32 × List UInt8 :=
  let r := hexToBytes 32 0 buf file
  if r.1 then r else (false, r.2.1, (chrin r.2.2).2)

/-- `@digit` of `parse_decimal_ip`: one octet, ended by a dot or a carriage return. -/
def parseOctet : List UInt8 → UInt8 → UInt8 × List UInt8
  | [], acc => (acc, [])
  | c :: cs, acc => if c = 0x2e ∨ c = cr then (acc, cs) else parseOctet cs (10 * acc + (c - 0x30))

/-- `parse_decimal_ip`. -/
def parseDecimalIp (file : List UInt8) : Bytes 4 × List UInt8 :=
  let a := parseOctet file 0
  let b := parseOctet a.2 0
  let c := parseOctet b.2 0
  let d := parseOctet c.2 0
  (#v[a.1, b.1, c.1, d.1], d.2)

/-- `parse_decimal_u16` and `parse_decimal_u64`: a number below `modulus`, ended by a carriage
return. -/
def parseDecimal (modulus : Nat) : List UInt8 → Nat → Nat × List UInt8
  | [], acc => (acc, [])
  | c :: cs, acc =>
      if c = cr then (acc, cs) else parseDecimal modulus cs ((10 * acc + (c - 0x30).toNat) % modulus)

/-! ## The file -/

/-- `@lines_4_to_7`. -/
def readAddresses (cfg : CfgMem) (file : List UInt8) : CfgMem × List UInt8 :=
  let ip := parseDecimalIp file
  let port := parseDecimal (2 ^ 16) ip.2 0
  let tunnel := parseDecimalIp port.2
  let target := parseDecimalIp tunnel.2
  ({ cfg with
      cfgPeerEndpoint := { ip := ip.1, port := ofBe 2 port.1 }
      tunnelIp := tunnel.1
      pingTargetIp := target.1 }, target.2)

/-- The optional lines 8 and 9. -/
def readOptional (cfg : CfgMem) (file : List UInt8) : Bool × CfgMem :=
  let psk := if eof file then (false, zero 32, file) else readKeyLine cfg.cfgPresharedKey file
  let cfg := { cfg with cfgPresharedKey := psk.2.1 }
  if psk.1 then (true, cfg)
  else
    let time := if eof psk.2.2 then 0 else (parseDecimal (2 ^ 64) psk.2.2 0).1
    (false, { cfg with tai64nBaseTime := ofBe 8 time })

/-- `config_read_file`: the carry and the staged configuration. -/
def configReadFile (file : Option (List UInt8)) (cfg : CfgMem) : Bool × CfgMem :=
  match file with
  | none => (true, cfg)
  | some file =>
      let priv := readKeyLine cfg.cfgStaticPriv file
      let cfg := { cfg with cfgStaticPriv := priv.2.1 }
      if priv.1 then (true, cfg)
      else
        let pub := readKeyLine cfg.cfgStaticPub priv.2.2
        let cfg := { cfg with cfgStaticPub := pub.2.1 }
        if pub.1 then (true, cfg)
        else
          let peer := readKeyLine cfg.cfgPeerPub pub.2.2
          let cfg := { cfg with cfgPeerPub := peer.2.1 }
          if peer.1 then (true, cfg)
          else
            let r := readAddresses cfg peer.2.2
            readOptional r.1 r.2

end C64WireGuard
