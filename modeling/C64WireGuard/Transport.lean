import C64WireGuard.Machine
import C64WireGuard.Lib.Window

/-!
# `transport.s`: Type 4 packets

The send side writes a header, copies the plaintext behind it and encrypts in place; the receive
side checks the replay window before it authenticates and updates the window after. The labels of
the source that other labels jump to are definitions of their own.
-/

namespace C64WireGuard

open Bytes

/-! ## Constants and tables -/

/-- `REJECT_COUNTER_B7`: from this top byte on a counter is refused. -/
def rejectCounterB7 : UInt8 := 0x10

/-- `REKEY_COUNTER_B7`: from this top byte on a rekey is asked for. -/
def rekeyCounterB7 : UInt8 := 0x0f

/-- `rw_bit_mask`. -/
def rwBitMask : Bytes 8 := #v[0x01, 0x02, 0x04, 0x08, 0x10, 0x20, 0x40, 0x80]

/-! ## Shared steps -/

/-- `transport_init`. -/
def transportInit (hsRespPacket : Bytes 92) (t : TpMem) : TpMem :=
  { t with
    tpSendCounter := zero 8
    tpRecvCounter := zero 8
    rwBitmap := zero 256
    rwCounterMax := zero 8
    rwNewCounter := 0
    tpPeerRecvIdx := slice hsRespPacket 4 4 }

/-- `counter_inc64`. -/
def counterInc64 (counter : Bytes 8) : Bytes 8 := inc counter

/-- `transport_build_nonce`: four zero bytes, then the counter. -/
def transportBuildNonce (counter : Bytes 8) : Bytes 12 := copyIn (zero 12) 4 counter

/-! ## Sending -/

/-- `tp_packet` after steps 1 and 2 of `transport_encrypt`: header, then the plaintext. -/
def encryptStage (payload : Bytes udpRecvBufSize) (t : TpMem) : Bytes udpRecvBufSize :=
  let pkt := copyIn t.tpPacket 0 (#v[4, 0, 0, 0] : Bytes 4)
  let pkt := copyIn pkt 4 t.tpPeerRecvIdx
  let pkt := copyIn pkt 8 t.tpSendCounter
  copy16 pkt 16 payload 0 t.tpPayloadLen

/-- `@refuse`. -/
def encryptRefuse (t : TpMem) : TpMem := { t with tpPacketLen := 0 }

/-- `transport_encrypt`. Besides the cells, the carry and whether `rekey_pending` was raised. The
plaintext bytes are those `tp_payload_ptr` points at. -/
def transportEncrypt (p : Primitives) (hsTransportSend : Bytes 32) (payload : Bytes udpRecvBufSize)
    (c : CryptoMem) (t : TpMem) : CryptoMem × TpMem × Bool × Bool :=
  let t := { t with tpEncryptError := 0 }
  if rejectCounterB7 ≤ byte t.tpSendCounter 7 then
    (c, encryptRefuse { t with tpEncryptError := 1 }, true, false)
  else
    let rekey := decide (rekeyCounterB7 ≤ byte t.tpSendCounter 7)
    let pkt := encryptStage payload t
    let c := { c with
      aeadKey := hsTransportSend
      aeadNonce := transportBuildNonce t.tpSendCounter }
    match p.aeadEncrypt c.aeadKey c.aeadNonce [] (slice pkt 16 t.tpPayloadLen) with
    | none => (c, encryptRefuse { t with tpPacket := pkt }, true, rekey)
    | some (ciphertext, tag) =>
        ({ c with poly1305Tag := tag },
          { t with
            tpPacket := copyIn (copyIn pkt 16 ciphertext) (16 + t.tpPayloadLen) tag
            tpPacketLen := (t.tpPayloadLen + 32) % 65536
            tpSendCounter := counterInc64 t.tpSendCounter },
          false, rekey)

/-- The cells after a successful `transport_encrypt`. -/
def encryptedMem (payload : Bytes udpRecvBufSize) (t : TpMem) (ciphertext : Bytes t.tpPayloadLen)
    (tag : Bytes 16) : TpMem :=
  { t with
    tpEncryptError := 0
    tpPacket := copyIn (copyIn (encryptStage payload t) 16 ciphertext) (16 + t.tpPayloadLen) tag
    tpPacketLen := (t.tpPayloadLen + 32) % 65536
    tpSendCounter := counterInc64 t.tpSendCounter }

/-- What `transport_encrypt` can do: refuse and keep the counter, or encrypt under it and advance
it. -/
theorem transportEncrypt_cases (p : Primitives) (key : Bytes 32) (payload : Bytes udpRecvBufSize)
    (c : CryptoMem) (t : TpMem) :
    (∃ c' t' rekey, transportEncrypt p key payload c t = (c', t', true, rekey) ∧
        t'.tpSendCounter = t.tpSendCounter ∧
        (rejectCounterB7 ≤ byte t.tpSendCounter 7 ∨
          p.aeadEncrypt key (transportBuildNonce t.tpSendCounter) []
            (slice (encryptStage payload t) 16 t.tpPayloadLen) = none)) ∨
      ∃ ciphertext tag c' rekey,
        transportEncrypt p key payload c t =
          (c', encryptedMem payload t ciphertext tag, false, rekey) ∧
        ¬ rejectCounterB7 ≤ byte t.tpSendCounter 7 ∧
        p.aeadEncrypt key (transportBuildNonce t.tpSendCounter) []
          (slice (encryptStage payload t) 16 t.tpPayloadLen) = some (ciphertext, tag) := by
  rw [transportEncrypt]
  dsimp only
  split
  · rename_i hlim
    exact .inl ⟨_, _, _, rfl, rfl, .inl hlim⟩
  · rename_i hlt
    split
    · rename_i henc
      exact .inl ⟨_, _, _, rfl, rfl, .inr henc⟩
    · rename_i ct tag henc
      exact .inr ⟨ct, tag, _, _, rfl, hlt, henc⟩

/-! ## The replay window -/

/-- The byte of `rw_bitmap` that holds a counter's flag. -/
def rwByteOffset (counter : Bytes 8) : Nat :=
  (((byte counter 1 &&& 0x07) <<< 5) ||| (byte counter 0 >>> 3)).toNat

/-- The bit of that byte. -/
def rwBitIndex (counter : Bytes 8) : Nat := (byte counter 0 &&& 0x07).toNat

/-- `@check_bitmap`: the flag is clear. -/
def checkBitmap (t : TpMem) : Bool :=
  byte t.rwBitmap (rwByteOffset t.tpRecvCounterTmp) &&&
    byte rwBitMask (rwBitIndex t.tpRecvCounterTmp) == 0

/-- Step 3 of `transport_decrypt`: `@replay_cmp`, `@recv_less` and `@check_high`. -/
def replayCheck (t : TpMem) : TpMem × Bool :=
  let t := { t with rwNewCounter := 0 }
  match Bytes.cmp t.tpRecvCounterTmp t.rwCounterMax with
  | .gt => ({ t with rwNewCounter := 1 }, true)
  | .eq => (t, checkBitmap t)
  | .lt =>
      let delta := sub16 (byte t.rwCounterMax 0) (byte t.rwCounterMax 1)
        (byte t.tpRecvCounterTmp 0) (byte t.tpRecvCounterTmp 1)
      let t := { t with rwShiftLo := delta.1, rwShiftHi := delta.2 }
      if slice t.rwCounterMax 2 6 ≠ slice t.tpRecvCounterTmp 2 6 then (t, false)
      else if 8 ≤ t.rwShiftHi then (t, false)
      else (t, checkBitmap t)

/-- `@clear_loop`: clear `x` flags from bit `mask` of byte `y` on. -/
def clearLoop : Nat → UInt8 → UInt8 → Bytes 256 → Bytes 256
  | 0, _, _, bitmap => bitmap
  | x + 1, mask, y, bitmap =>
      let bitmap := put bitmap y.toNat ((mask ^^^ 0xff) &&& byte bitmap y.toNat)
      if mask <<< 1 = 0 then clearLoop x 1 (y + 1) bitmap else clearLoop x (mask <<< 1) y bitmap

/-- The flags of `(old_max, new_max]`, when the shift is below 256. `dex`/`bne` runs the loop 256
times for a count of zero. -/
def clearShifted (t : TpMem) : Bytes 256 :=
  let lo := byte t.rwCounterMax 0 + 1
  let hi := byte t.rwCounterMax 1 + if lo = 0 then 1 else 0
  let x := if t.rwShiftLo = 0 then 256 else t.rwShiftLo.toNat
  clearLoop x (byte rwBitMask (lo &&& 0x07).toNat) ((lo >>> 3) ||| (hi <<< 5)) t.rwBitmap

/-- The advance of the window, up to `@upd_max`. -/
def advanceWindow (t : TpMem) : TpMem :=
  let shift := sub16 (byte t.tpRecvCounterTmp 0) (byte t.tpRecvCounterTmp 1)
    (byte t.rwCounterMax 0) (byte t.rwCounterMax 1)
  let t := { t with rwShiftLo := shift.1, rwShiftHi := shift.2 }
  let bitmap :=
    if slice t.tpRecvCounterTmp 2 6 ≠ slice t.rwCounterMax 2 6 then zero 256
    else if t.rwShiftHi ≠ 0 then zero 256
    else clearShifted t
  { t with rwBitmap := bitmap, rwCounterMax := t.tpRecvCounterTmp }

/-- `@just_set_bit`, and `tp_recv_counter` after it. -/
def justSetBit (t : TpMem) : TpMem :=
  let y := rwByteOffset t.tpRecvCounterTmp
  { t with
    rwBitmap := put t.rwBitmap y
      (byte t.rwBitmap y ||| byte rwBitMask (rwBitIndex t.tpRecvCounterTmp))
    tpRecvCounter := counterInc64 t.rwCounterMax }

/-- Step 8 of `transport_decrypt`. -/
def windowUpdate (t : TpMem) : TpMem :=
  justSetBit (if t.rwNewCounter = 0 then t else advanceWindow t)

/-! ## Receiving -/

/-- The counter a Type 4 packet carries. -/
def packetCounter (udp : UdpRecv) : Bytes 8 := slice udp.udpRecvBuf 8 8

/-- Steps 5 and 6 of `transport_decrypt`: ciphertext, tag, key and nonce in place. -/
def decryptStage (hsTransportRecv : Bytes 32) (udp : UdpRecv) (c : CryptoMem) (t : TpMem) :
    CryptoMem × TpMem :=
  ({ c with
      aeadTag := slice udp.udpRecvBuf (16 + t.tpPayloadLen) 16
      aeadKey := hsTransportRecv
      aeadNonce := transportBuildNonce t.tpRecvCounterTmp },
    { t with tpPacket := copy16 t.tpPacket 16 udp.udpRecvBuf 16 t.tpPayloadLen })

/-- Steps 5 to 8 of `transport_decrypt`. -/
def decryptVerify (p : Primitives) (hsTransportRecv : Bytes 32) (udp : UdpRecv) (c : CryptoMem)
    (t : TpMem) : Bool × CryptoMem × TpMem :=
  let s := decryptStage hsTransportRecv udp c t
  let r := p.aeadDecrypt s.1.aeadKey s.1.aeadNonce [] (slice s.2.tpPacket 16 t.tpPayloadLen)
    s.1.aeadTag
  let t := { s.2 with tpPacket := copyIn s.2.tpPacket 16 r.2 }
  if r.1 then (true, s.1, windowUpdate t) else (false, s.1, t)

/-- `transport_decrypt`: `true` is `A = 0`. -/
def transportDecrypt (p : Primitives) (hsTransportRecv : Bytes 32) (udp : UdpRecv) (c : CryptoMem)
    (t : TpMem) : Bool × CryptoMem × TpMem :=
  if byte udp.udpRecvBuf 0 ≠ 4 then (false, c, t)
  else
    let t := { t with tpRecvCounterTmp := packetCounter udp }
    if rejectCounterB7 ≤ byte t.tpRecvCounterTmp 7 then (false, c, t)
    else
      let r := replayCheck t
      if r.2 then
        let t := { r.1 with tpPayloadLen := (udp.udpRecvLen + 65536 - 32) % 65536 }
        if udp.udpRecvLen < 32 then (false, c, t)
        else decryptVerify p hsTransportRecv udp c t
      else (false, c, r.1)

end C64WireGuard
