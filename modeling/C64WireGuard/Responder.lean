import C64WireGuard.Initiator
import Mathlib.Logic.Function.Basic

/-!
# `wg_responder`: the other end of the tunnel

`WireGuardResponder` and the receive loop of `run_server`, over the third-party `noiseprotocol`
library as a parameter (`NoiseLib`). A method is a function from the responder and its arguments to
the responder it leaves behind and what it returns or raises, so that what a call changes before it
raises is visible.

What the library draws from the operating system is an argument: the ephemeral key of
`write_message`, and the sender index of `__init__`. The two indexes are kept as the four bytes
that `struct` packs and unpacks. The keys `__init__` precomputes are functions of its arguments.
-/

namespace C64WireGuard

open Bytes Blake2s

/-! ## Exceptions -/

/-- What the program raises, with the values it formats into the text, and what its libraries
raise. -/
inductive PyError
  | staticPrivLength
  | peerStaticPubLength
  | type1Length (got : Nat)
  | notType1 (byte0 : UInt8)
  | reservedNotZero
  | mac1Mismatch (expected actual : List UInt8)
  | payloadLength (got : Nat)
  | timestampReplay (peerStaticPub : Bytes 32) (timestamp greatest : List UInt8)
  | type4Length (got : Nat)
  | notType4 (byte0 : UInt8)
  | handshakeNotComplete
  | type2Length (built : Nat)
  /-- `struct.error`. -/
  | structError
  /-- The `ValueError` of an X25519 exchange whose shared secret is all zeros. -/
  | nullSharedKey
  /-- `cryptography.exceptions.InvalidTag`. -/
  | invalidTag
  /-- `noise.exceptions.NoiseInvalidMessage`. -/
  | noiseInvalidMessage
  /-- `noise.exceptions.NoiseMaxNonceError`. -/
  | noiseMaxNonce
deriving DecidableEq

/-- `except ValueError` catches it. `TimestampReplayError` is a subclass. -/
def PyError.isValueError : PyError → Bool
  | .handshakeNotComplete | .type2Length _ | .structError | .invalidTag | .noiseInvalidMessage
  | .noiseMaxNonce => false
  | _ => true

/-- `bytes.hex`. -/
def hexText (bytes : List UInt8) : String :=
  String.ofList (bytes.flatMap fun b => [Nat.digitChar (b.toNat / 16), Nat.digitChar (b.toNat % 16)])

/-- The text of an exception; those of the libraries are not the program's. -/
def PyError.text : PyError → String
  | .staticPrivLength => "static_priv must be 32 bytes"
  | .peerStaticPubLength => "peer_static_pub must be 32 bytes"
  | .type1Length got => s!"Type 1 must be 148 bytes, got {got}"
  | .notType1 byte0 => "Not a Type-1 packet (byte0=0x" ++ hexText [byte0] ++ ")"
  | .reservedNotZero => "Reserved bytes not zero in Type 1"
  | .mac1Mismatch expected actual =>
      "Type-1 MAC1 mismatch: expected=" ++ hexText expected ++ " actual=" ++ hexText actual
  | .payloadLength got => s!"Type-1 payload is {got} bytes, expected a 12-byte TAI64N"
  | .timestampReplay peerStaticPub timestamp greatest =>
      "TAI64N replay: timestamp " ++ hexText timestamp ++
        (if timestamp = greatest then " == " else " < ") ++ "greatest accepted " ++
        hexText greatest ++ " from peer " ++ hexText (peerStaticPub.toList.take 4) ++
        "… (WireGuard drops this initiation; issue #87)"
  | .type4Length got => s!"Type-4 packet too short ({got} bytes)"
  | .notType4 byte0 => "Not a Type-4 packet (byte0=0x" ++ hexText [byte0] ++ ")"
  | .handshakeNotComplete => "Handshake not complete yet"
  | .type2Length built => s!"BUG: built {built}-byte Type 2, expected 92"
  | _ => ""

/-! ## The library -/

/-- `noiseprotocol` and the X25519 of `cryptography`, as this program calls them. `startHandshake`
is the whole sequence from `NoiseConnection.from_name` on, on the preshared key, the static private
key and the preset remote static key. A call that raises during the handshake leaves a connection
that is thrown away; `encrypt` and `decrypt` act on one that stays. -/
structure NoiseLib where
  Connection : Type
  publicKey : Bytes 32 → Bytes 32
  startHandshake : Bytes 32 → Bytes 32 → Bytes 32 → Connection
  readMessage : Connection → List UInt8 → Except PyError (Connection × List UInt8)
  writeMessage : Connection → Bytes 32 → List UInt8 → Except PyError (Connection × List UInt8)
  encrypt : Connection → List UInt8 → Connection × Except PyError (List UInt8)
  decrypt : Connection → List UInt8 → Connection × Except PyError (List UInt8)

/-! ## Constants and MAC helpers -/

def msgTypeInitiation : UInt8 := 0x01

def msgTypeResponse : UInt8 := 0x02

def msgTypeTransport : UInt8 := 0x04

def t1Total : Nat := 148

def t1OffSender : Nat := 4

def t1OffNoise : Nat := 8

def t1OffMac1 : Nat := 116

def t2Total : Nat := 92

def t4HdrLen : Nat := 16

/-- `LABEL_MAC1`. -/
def labelMac1 : List UInt8 := [0x6d, 0x61, 0x63, 0x31, 0x2d, 0x2d, 0x2d, 0x2d]

/-- `_blake2s`. -/
def hashlibBlake2s (data : List UInt8) : Bytes 32 := digest 32 [] data

/-- `_mac1_key`. -/
def responderMac1Key (staticPubkey : Bytes 32) : Bytes 32 :=
  hashlibBlake2s (labelMac1 ++ staticPubkey.toList)

/-- `_compute_mac1`. -/
def computeMac1 (msgBytes : List UInt8) (mac1Key : Bytes 32) : List UInt8 :=
  (digest 16 mac1Key.toList msgBytes).toList

/-- `packet[a:b]`. -/
def span (packet : List UInt8) (a b : Nat) : List UInt8 := (packet.drop a).take (b - a)

/-! ## `WireGuardResponder` -/

variable (L : NoiseLib)

/-- The attributes. -/
structure Responder where
  staticPriv : Bytes 32
  peerStaticPub : Bytes 32
  psk : Bytes 32
  mySenderIdx : Bytes 4
  noise : Option L.Connection
  c64SenderIdx : Option (Bytes 4)
  sendCounter : Nat
  greatestTimestamps : Bytes 32 → Option (List UInt8)
  lastTimestamp : Option (List UInt8)
  handshakeComplete : Bool

variable {L}

/-- `__init__`. The length of the preshared key is not checked there. -/
def Responder.init (staticPriv peerStaticPub : List UInt8) (psk : Option (Bytes 32))
    (mySenderIdx : Bytes 4) : Except PyError (Responder L) :=
  if staticPriv.length ≠ 32 then .error .staticPrivLength
  else if peerStaticPub.length ≠ 32 then .error .peerStaticPubLength
  else
    .ok
      { staticPriv := ofList 32 staticPriv
        peerStaticPub := ofList 32 peerStaticPub
        psk := psk.getD (zero 32)
        mySenderIdx := mySenderIdx
        noise := none
        c64SenderIdx := none
        sendCounter := 0
        greatestTimestamps := fun _ => none
        lastTimestamp := none
        handshakeComplete := false }

/-- `_static_pub`. -/
def Responder.staticPub (r : Responder L) : Bytes 32 := L.publicKey r.staticPriv

/-- `greatest_timestamp`. -/
def Responder.greatestTimestamp (r : Responder L) (peerStaticPub : Option (Bytes 32)) :
    Option (List UInt8) :=
  r.greatestTimestamps (peerStaticPub.getD r.peerStaticPub)

/-- `_build_type2`. -/
def Responder.buildType2 (r : Responder L) (noiseMsg2 : List UInt8) :
    Except PyError (List UInt8) :=
  let hdr := [msgTypeResponse, 0, 0, 0] ++ r.mySenderIdx.toList ++
    (r.c64SenderIdx.getD (zero 4)).toList
  let body := hdr ++ noiseMsg2
  let pkt := body ++ computeMac1 body (responderMac1Key r.peerStaticPub) ++ List.replicate 16 0
  if pkt.length = t2Total then .ok pkt else .error (.type2Length pkt.length)

/-- The greatest-seen rule drops this timestamp. -/
def Responder.stale (r : Responder L) (timestamp : List UInt8) : Option (List UInt8) :=
  match r.greatestTimestamps r.peerStaticPub with
  | none => none
  | some greatest => if beNat timestamp ≤ beNat greatest then some greatest else none

/-- The attributes an accepted initiation sets. -/
def Responder.commit (r : Responder L) (noise : L.Connection) (senderIdx : Bytes 4)
    (timestamp : List UInt8) : Responder L :=
  { r with
    noise := some noise
    c64SenderIdx := some senderIdx
    greatestTimestamps := Function.update r.greatestTimestamps r.peerStaticPub (some timestamp)
    lastTimestamp := some timestamp
    handshakeComplete := true
    sendCounter := 0 }

/-- `handle_initiation`, from the fresh connection on. -/
def Responder.consumeInitiation (r : Responder L) (packet : List UInt8) (ephemeral : Bytes 32) :
    Responder L × Except PyError (List UInt8) :=
  match L.readMessage (L.startHandshake r.psk r.staticPriv r.peerStaticPub)
      (span packet t1OffNoise t1OffMac1) with
  | .error e => (r, .error e)
  | .ok (noise, timestamp) =>
      if timestamp.length ≠ 12 then (r, .error (.payloadLength timestamp.length))
      else
        match r.stale timestamp with
        | some greatest => (r, .error (.timestampReplay r.peerStaticPub timestamp greatest))
        | none =>
            match L.writeMessage noise ephemeral [] with
            | .error e => (r, .error e)
            | .ok (noise, noiseMsg2) =>
                let r := r.commit noise (ofList 4 (span packet t1OffSender t1OffNoise)) timestamp
                (r, r.buildType2 noiseMsg2)

/-- `handle_initiation`. -/
def Responder.handleInitiation (r : Responder L) (packet : List UInt8) (ephemeral : Bytes 32) :
    Responder L × Except PyError (List UInt8) :=
  if packet.length ≠ t1Total then (r, .error (.type1Length packet.length))
  else if packet.getD 0 0 ≠ msgTypeInitiation then (r, .error (.notType1 (packet.getD 0 0)))
  else if span packet 1 4 ≠ [0, 0, 0] then (r, .error .reservedNotZero)
  else
    let expectedMac1 := computeMac1 (packet.take t1OffMac1) (responderMac1Key r.staticPub)
    let actualMac1 := span packet t1OffMac1 (t1OffMac1 + 16)
    if expectedMac1 ≠ actualMac1 then (r, .error (.mac1Mismatch expectedMac1 actualMac1))
    else r.consumeInitiation packet ephemeral

/-- `decrypt_transport`. -/
def Responder.decryptTransport (r : Responder L) (packet : List UInt8) :
    Responder L × Except PyError (List UInt8) :=
  match r.handshakeComplete, r.noise with
  | true, some noise =>
      if packet.length < t4HdrLen + 16 then (r, .error (.type4Length packet.length))
      else if packet.getD 0 0 ≠ msgTypeTransport then (r, .error (.notType4 (packet.getD 0 0)))
      else
        let d := L.decrypt noise (packet.drop t4HdrLen)
        ({ r with noise := some d.1 }, d.2)
  | _, _ => (r, .error .handshakeNotComplete)

/-- `encrypt_transport`. -/
def Responder.encryptTransport (r : Responder L) (plaintext : List UInt8) :
    Responder L × Except PyError (List UInt8) :=
  match r.handshakeComplete, r.noise with
  | true, some noise =>
      match L.encrypt noise plaintext with
      | (noise, .error e) => ({ r with noise := some noise }, .error e)
      | (noise, .ok ciphertext) =>
          let counter := r.sendCounter
          let r := { r with noise := some noise, sendCounter := counter + 1 }
          if counter < 2 ^ 64 then
            (r, .ok ([msgTypeTransport, 0, 0, 0] ++ (r.c64SenderIdx.getD (zero 4)).toList ++
              (tabulate 8 fun i => UInt8.ofNat (counter / 256 ^ i)).toList ++ ciphertext))
          else (r, .error .structError)
  | _, _ => (r, .error .handshakeNotComplete)

/-! ## `run_server` -/

/-- A received datagram: its bytes, its sender, and the ephemeral key the library draws if it is
answered. -/
structure Datagram where
  data : List UInt8
  addr : Endpoint
  ephemeral : Bytes 32

variable (L) in
/-- What the receive loop keeps, and what it has sent, newest first. -/
structure Server where
  responder : Responder L
  peerAddr : Option Endpoint
  active : Bool
  sent : List (Endpoint × List UInt8)

/-- One iteration of the receive loop; an error is an exception that leaves the loop. -/
def Server.serve (s : Server L) (d : Datagram) : Except PyError (Server L) :=
  if d.data = [] then .ok s
  else if d.data.getD 0 0 = msgTypeInitiation then
    match s.responder.handleInitiation d.data d.ephemeral with
    | (r, .error e) => if e.isValueError then .ok { s with responder := r } else .error e
    | (r, .ok response) =>
        .ok
          { responder := r
            peerAddr := some d.addr
            active := true
            sent := (d.addr, response) :: s.sent }
  else if d.data.getD 0 0 = msgTypeTransport then
    if s.active then .ok { s with responder := (s.responder.decryptTransport d.data).1 } else .ok s
  else .ok s

/-- The receive loop on the datagrams that arrive. -/
def Server.serveAll (s : Server L) : List Datagram → Except PyError (Server L)
  | [] => .ok s
  | d :: ds => (s.serve d).bind fun s => s.serveAll ds

end C64WireGuard
