import C64WireGuard.Kdf
import C64WireGuard.Cookie

/-!
# What `cookie_handle_type3` does

`cookieHandleType3_spec` says it in one equation: past the two guards, the verdict and the cookie are
those of one AEAD call, `openCookie`, and nothing but scratch, `cookie_buf` and `cookie_valid` is
written. The scratch does not enter into the verdict.
-/

namespace C64WireGuard

open Bytes

/-- The key that the holder of `pub` seals cookies with. -/
def cookieKey (pub : Bytes 32) : Bytes 32 := blake2s256 (wgCookieLabel ++ pub.toList)

/-- What `hchacha20` makes of a key and the first 16 bytes of a nonce. -/
def hchachaKey (p : Primitives) (key : Bytes 32) (nonce : Bytes 16) : Bytes 32 :=
  let work := (hcDoubleRound p)^[10] (p.chacha20Init key (slice nonce 0 4) (slice nonce 4 12))
  copyIn (copyIn key 0 (slice work 0 16)) 16 (slice work 48 16)

/-- The 24-byte nonce of a reply. -/
def replyNonce (udp : UdpRecv) : Bytes 24 := slice udp.udpRecvBuf 8 24

/-- Open a reply to the initiation with this MAC1, as one from the holder of `pub`. -/
def openCookie (p : Primitives) (pub : Bytes 32) (udp : UdpRecv) (mac1 : Bytes 16) :
    Bool × Bytes 16 :=
  p.aeadDecrypt (hchachaKey p (cookieKey pub) (slice (replyNonce udp) 0 16))
    (copyIn (zero 12) 4 (slice (replyNonce udp) 16 8)) mac1.toList (slice udp.udpRecvBuf 32 16)
    (slice udp.udpRecvBuf 48 16)

variable {p : Primitives}

theorem cc20Key_hchacha20 (p : Primitives) (m : CryptoMem) {nonce : Bytes 16}
    (hctr : m.cc20Counter = slice nonce 0 4) (hnonce : m.cc20Nonce = slice nonce 4 12) :
    (hchacha20 p m).cc20Key = hchachaKey p m.cc20Key nonce := by
  rw [hchachaKey, ← hctr, ← hnonce]
  rfl

/-- The stage before the AEAD call: its operands, and scratch. -/
theorem cookieStage_spec (p : Primitives) (pub : Bytes 32) (udp : UdpRecv) (m : HsMem) :
    ∃ cm : CryptoMem,
      cookieStage p pub udp m =
        { m with
          toCryptoMem := cm
          cookieBuf := copyIn m.cookieBuf 0 (slice udp.udpRecvBuf 32 16) } ∧
      Unkeyed cm.b2s ∧
      cm.aeadKey = hchachaKey p (cookieKey pub) (slice (replyNonce udp) 0 16) ∧
      cm.aeadNonce = copyIn (zero 12) 4 (slice (replyNonce udp) 16 8) ∧
      cm.aeadTag = slice udp.udpRecvBuf 48 16 := by
  obtain ⟨hhash, hun⟩ := blake2sHash_unkeyed .cookieKey [wgCookieLabel, pub.toList]
    (s := { m.b2s with b2sOutLen := 32, b2sKeyLen := 0 }) ⟨rfl, rfl⟩
  rw [List.flatten_cons, List.flatten_cons, List.flatten_nil, List.append_nil] at hhash
  have hcounter : slice (slice (replyNonce udp) 0 16) 0 4 = slice udp.udpRecvBuf 8 4 := by
    rw [slice_slice _ _ (by decide), replyNonce, slice_slice _ _ (by decide)]
  have hnonce : slice (slice (replyNonce udp) 0 16) 4 12 = slice udp.udpRecvBuf 12 12 := by
    rw [slice_slice _ _ (by decide), replyNonce, slice_slice _ _ (by decide)]
  have hlast : slice (replyNonce udp) 16 8 = slice udp.udpRecvBuf 24 8 := by
    rw [replyNonce, slice_slice _ _ (by decide)]
  have hkey := cc20Key_hchacha20 p
    { m.toCryptoMem with
      b2s := blake2sHash .cookieKey [wgCookieLabel, pub.toList]
        { m.b2s with b2sOutLen := 32, b2sKeyLen := 0 }
      cc20Key := (blake2sHash .cookieKey [wgCookieLabel, pub.toList]
        { m.b2s with b2sOutLen := 32, b2sKeyLen := 0 }).b2sHash
      cc20Counter := slice udp.udpRecvBuf 8 4
      cc20Nonce := slice udp.udpRecvBuf 12 12 } hcounter.symm hnonce.symm
  refine ⟨(cookieStage p pub udp m).toCryptoMem, rfl, hun, ?_, ?_, rfl⟩
  · rw [cookieKey, ← hhash]
    exact hkey
  · rw [hlast]
    rfl

/-- **`cookie_handle_type3` in one equation.** -/
theorem cookieHandleType3_spec (p : Primitives) (pub : Bytes 32) (udp : UdpRecv) (m : HsMem) :
    ∃ cm : CryptoMem, Unkeyed cm.b2s ∧
      cookieHandleType3 p pub udp m =
        if slice udp.udpRecvBuf 4 4 = m.hsSenderIdx ∧ m.hsMac1Valid = true then
          let o := openCookie p pub udp (slice m.hsPacket 116 16)
          (o.1,
            { m with
              toCryptoMem := cm
              cookieBuf := copyIn m.cookieBuf 0 o.2
              cookieValid := m.cookieValid || o.1 })
        else (false, m) := by
  obtain ⟨cm, hstage, hun, hkey, hnonce, htag⟩ := cookieStage_spec p pub udp m
  refine ⟨cm, hun, ?_⟩
  have hdata : slice (copyIn m.cookieBuf 0 (slice udp.udpRecvBuf 32 16)) 0 16 =
      slice udp.udpRecvBuf 32 16 := slice_copyIn_self _ _ (by decide)
  have hbuf (cookie : Bytes 16) :
      copyIn (copyIn m.cookieBuf 0 (slice udp.udpRecvBuf 32 16)) 0 cookie =
        copyIn m.cookieBuf 0 cookie := by
    apply ext_byte
    intro i hi
    simp only [byte_copyIn]
    split <;> rfl
  rw [cookieHandleType3, cookieOpen, hstage]
  simp only [hkey, hnonce, htag, hdata, hbuf]
  rw [← openCookie]
  generalize openCookie p pub udp (slice m.hsPacket 116 16) = o
  obtain ⟨ok, cookie⟩ := o
  cases ok with
  | true => simp only [if_true, Bool.or_true]
  | false => simp only [Bool.false_eq_true, if_false, Bool.or_false]

end C64WireGuard
