import C64WireGuard.Blake2s

/-!
# `cookie.s`: Type 3 cookie replies

The state gate that decides whether a reply is looked at is the caller's, in `session.s`.
-/

namespace C64WireGuard

open Bytes

/-! ## HChaCha20 -/

/-- One pass of `@hc_dr`: the eight quarter rounds of a double round. -/
def hcDoubleRound (p : Primitives) (work : Bytes 64) : Bytes 64 :=
  [0, 4, 8, 12, 16, 20, 24, 28].foldl (fun w qrIdx => p.chacha20QuarterRound qrIdx w) work

/-- `hchacha20`. -/
def hchacha20 (p : Primitives) (m : CryptoMem) : CryptoMem :=
  let m := { m with cc20Work := p.chacha20Init m.cc20Key m.cc20Counter m.cc20Nonce }
  let m := { m with cc20Work := (hcDoubleRound p)^[10] m.cc20Work }
  let key := copyIn m.cc20Key 0 (slice m.cc20Work 0 16)
  { m with cc20Key := copyIn key 16 (slice m.cc20Work 48 16) }

/-! ## Cookie replies -/

/-- `wg_cookie_label`, `"cookie--"`. -/
def wgCookieLabel : List UInt8 := [0x63, 0x6f, 0x6f, 0x6b, 0x69, 0x65, 0x2d, 0x2d]

/-- Steps 1 to 4 of `cookie_handle_type3`: the subkey, the nonce, the tag, and the encrypted cookie
in `cookie_buf`. -/
def cookieStage (p : Primitives) (cfgPeerPub : Bytes 32) (udp : UdpRecv) (m : HsMem) : HsMem :=
  let m := { m with b2s := { m.b2s with b2sOutLen := 32, b2sKeyLen := 0 } }
  let m := { m with b2s := blake2sHash .cookieKey [wgCookieLabel, cfgPeerPub.toList] m.b2s }
  let m := { m with
    cc20Key := m.b2s.b2sHash
    cc20Counter := slice udp.udpRecvBuf 8 4
    cc20Nonce := slice udp.udpRecvBuf 12 12 }
  let m := { m with toCryptoMem := hchacha20 p m.toCryptoMem }
  { m with
    aeadKey := m.cc20Key
    aeadNonce := copyIn (zero 12) 4 (slice udp.udpRecvBuf 24 8)
    cookieBuf := copyIn m.cookieBuf 0 (slice udp.udpRecvBuf 32 16)
    aeadTag := slice udp.udpRecvBuf 48 16 }

/-- Step 5 of `cookie_handle_type3`. The associated data is the MAC1 of the last initiation. -/
def cookieOpen (p : Primitives) (m : HsMem) : Bool × HsMem :=
  let r := p.aeadDecrypt m.aeadKey m.aeadNonce (slice m.hsPacket 116 16).toList
    (slice m.cookieBuf 0 16) m.aeadTag
  let m := { m with cookieBuf := copyIn m.cookieBuf 0 r.2 }
  if r.1 then (true, { m with cookieValid := true }) else (false, m)

/-- `cookie_handle_type3`: `true` is `A = 0`. -/
def cookieHandleType3 (p : Primitives) (cfgPeerPub : Bytes 32) (udp : UdpRecv) (m : HsMem) :
    Bool × HsMem :=
  if slice udp.udpRecvBuf 4 4 = m.hsSenderIdx ∧ m.hsMac1Valid = true then
    cookieOpen p (cookieStage p cfgPeerPub udp m)
  else (false, m)

/-! ## MACs -/

/-- A keyed hash with 16 bytes of output: the key goes through `input_buffer`, and the parameter
cells are restored to the convention of the unkeyed callers. -/
def keyedMac (site : HashSite) {k : Nat} (key : Bytes k) (data : List UInt8) (s : B2s) : B2s :=
  let s := blake2sHash site [data]
    { s with
      inputBuffer := copyIn s.inputBuffer 0 key
      b2sKeyLen := UInt8.ofNat k
      b2sOutLen := 16 }
  { s with b2sOutLen := 32, b2sKeyLen := 0 }

/-- `hs_set_mac2`. -/
def hsSetMac2 (m : HsMem) : HsMem :=
  let m := { m with
    b2s := keyedMac .hsSetMac2 (slice m.cookieBuf 0 16) (slice m.hsPacket 0 132).toList m.b2s }
  { m with
    hsPacket := copyIn m.hsPacket 132 (slice m.b2s.b2sHash 0 16)
    cookieValid := false }

end C64WireGuard
