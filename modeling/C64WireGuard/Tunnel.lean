import C64WireGuard.Replay
import C64WireGuard.SealedTransport

/-!
# Both ends of a tunnel

The C64 and the responder after a handshake, and a network between them that loses, repeats,
reorders and injects datagrams as it likes. What it cannot do is forge (`Unforged`).

**Theorem (`tunnel_safe`).** In every run the responder has read a prefix of what the C64 has sealed,
and the C64 has accepted under each counter what the responder has sealed under it. As long as the
window has forgotten nothing, no counter is accepted twice; and it forgets nothing before the
responder has sent more than 256 packets.

**Theorem (`tunnel_live`).** The packet the responder waits for is read when it arrives, and so is
every packet to the C64 that its window admits.

The proof is an invariant (`Tunnel.Inv`) that each step keeps. The two directions are not alike: the
responder counts the packets it opens and skips their counters, and the C64 takes the counter from
the packet and asks its window.
-/

namespace C64WireGuard

open Bytes ReplayWindow

variable {L : NoiseLib} {p : Primitives} {view : L.Connection → ConnectionView}
  {keyUp keyDown : Bytes 32}

/-! ## The two ends -/

/-- A plaintext, and the packet that carries it. -/
structure Message where
  plain : List UInt8
  packet : List UInt8

/-- The transport cells of the C64 and the responder, with what has been sealed on either side and
what has been read of it, oldest first. `forgot` says that the window has forgotten a counter. -/
structure Tunnel (L : NoiseLib) where
  crypto : CryptoMem
  tp : TpMem
  responder : Responder L
  up : List Message
  down : List Message
  served : List (List UInt8)
  accepted : List (Bytes 8 × List UInt8)
  forgot : Prop

/-- The bytes of a received datagram. -/
def UdpRecv.bytes (udp : UdpRecv) : List UInt8 := (slice udp.udpRecvBuf 0 udp.udpRecvLen).toList

/-- What opens under number `n` is the ciphertext of the packet sent under it. -/
def Unforged (p : Primitives) (key : Bytes 32) (sent : List (List UInt8)) (n : Nat)
    (packet : List UInt8) : Prop :=
  (transportOpen p key n (packet.drop t4HdrLen)).isSome →
    ∃ own, sent[n]? = some own ∧ own.drop t4HdrLen = packet.drop t4HdrLen

theorem Unforged.message {key : Bytes 32} {sent : List Message} {n : Nat} {packet : List UInt8}
    (h : Unforged p key (sent.map Message.packet) n packet)
    (hopen : (transportOpen p key n (packet.drop t4HdrLen)).isSome) :
    ∃ msg, sent[n]? = some msg ∧ msg.packet.drop t4HdrLen = packet.drop t4HdrLen := by
  obtain ⟨own, hget, hsealed⟩ := h hopen
  rw [List.getElem?_map, Option.map_eq_some_iff] at hget
  obtain ⟨msg, hmsg, rfl⟩ := hget
  exact ⟨msg, hmsg, hsealed⟩

namespace Tunnel

/-- `transport_encrypt`. -/
def c64Encrypt (p : Primitives) (keyUp : Bytes 32) (pt : Plaintext) (T : Tunnel L) : Tunnel L :=
  let r := transportEncrypt p keyUp pt.buf T.crypto { T.tp with tpPayloadLen := pt.len }
  { T with
    crypto := r.1
    tp := r.2.1
    up := if r.2.2.1 then T.up else T.up ++ [⟨pt.bytes, tpPacketBytes r.2.1⟩] }

/-- `encrypt_transport`. -/
def responderEncrypt (plain : List UInt8) (T : Tunnel L) : Tunnel L :=
  match T.responder.encryptTransport plain with
  | (r, .ok packet) => { T with responder := r, down := T.down ++ [⟨plain, packet⟩] }
  | (r, .error _) => { T with responder := r }

/-- `decrypt_transport`. -/
def responderDecrypt (packet : List UInt8) (T : Tunnel L) : Tunnel L :=
  match T.responder.decryptTransport packet with
  | (r, .ok plain) => { T with responder := r, served := T.served ++ [plain] }
  | (r, .error _) => { T with responder := r }

/-- `transport_decrypt`. -/
def c64Decrypt (p : Primitives) (keyDown : Bytes 32) (udp : UdpRecv) (T : Tunnel L) : Tunnel L :=
  let r := transportDecrypt p keyDown udp T.crypto T.tp
  { T with
    crypto := r.2.1
    tp := r.2.2
    accepted :=
      if r.1 then
        T.accepted ++ [(packetCounter udp, (slice r.2.2.tpPacket 16 r.2.2.tpPayloadLen).toList)]
      else T.accepted
    forgot := T.forgot ∨ forgets p keyDown udp T.tp }

/-- **One step**, of either end or of the network, which delivers whatever it likes. Between two
steps the C64 may do anything that leaves the cells of the session alone. -/
inductive Step (p : Primitives) (keyUp keyDown : Bytes 32) : Tunnel L → Tunnel L → Prop
  | c64Encrypt (T : Tunnel L) (pt : Plaintext) : Step p keyUp keyDown T (T.c64Encrypt p keyUp pt)
  | responderEncrypt (T : Tunnel L) {plain : List UInt8} (short : plain.length ≤ 1468)
      (room : T.down.length < 2 ^ 64 - 1) : Step p keyUp keyDown T (T.responderEncrypt plain)
  | responderDecrypt (T : Tunnel L) {packet : List UInt8} (short : packet.length < 2 ^ 16)
      (unforged : Unforged p keyUp (T.up.map Message.packet) T.served.length packet) :
      Step p keyUp keyDown T (T.responderDecrypt packet)
  | c64Decrypt (T : Tunnel L) {udp : UdpRecv}
      (unforged : Unforged p keyDown (T.down.map Message.packet) (le (packetCounter udp)) udp.bytes) :
      Step p keyUp keyDown T (T.c64Decrypt p keyDown udp)
  | between (T : Tunnel L) (crypto : CryptoMem) {tp : TpMem} (same : tp.session = T.tp.session) :
      Step p keyUp keyDown T { T with crypto := crypto, tp := tp }

end Tunnel

/-! ## The documented behaviour of `encrypt` -/

/-- A transport message is sealed under the number of those sealed before. -/
def NoiseLib.Encrypts (L : NoiseLib) (p : Primitives) (view : L.Connection → ConnectionView) : Prop :=
  ∀ c recvKey n sendKey m plain ciphertext tag, view c = .transport recvKey n sendKey m →
    m < 2 ^ 64 - 1 →
    p.aeadEncrypt sendKey (transportNonce m) [] (ofList plain.length plain) = some (ciphertext, tag) →
    ∃ c', L.encrypt c plain = (c', .ok (ciphertext.toList ++ tag.toList)) ∧
      view c' = .transport recvKey n sendKey (m + 1)

theorem rfcNoise_encrypts (p : Primitives) : (rfcNoise p).Encrypts p id := by
  rintro c recvKey n sendKey m plain ciphertext tag rfl hm henc
  refine ⟨_, ?_, rfl⟩
  simp only [rfcNoise, if_neg (Nat.not_le.mpr hm), henc]

/-! ## The invariant -/

/-- A packet of the C64, number `k`. -/
structure SealedUp (p : Primitives) (key : Bytes 32) (k : Nat) (msg : Message) : Prop where
  type : msg.packet.getD 0 0 = msgTypeTransport
  long : t4HdrLen + 16 ≤ msg.packet.length
  short : msg.packet.length < 2 ^ 16
  opens : transportOpen p key k (msg.packet.drop t4HdrLen) = some msg.plain

/-- A packet of the responder, number `k`. -/
def SealedDown (p : Primitives) (key : Bytes 32) (k : Nat) (msg : Message) : Prop :=
  ∃ (n : Nat) (payload ciphertext : Bytes n) (tag : Bytes 16) (idx : Bytes 4), n ≤ 1468 ∧
    p.aeadEncrypt key (transportNonce k) [] payload = some (ciphertext, tag) ∧
    msg.plain = payload.toList ∧ msg.packet = sealedPacket idx (counterOf k) ciphertext tag

/-- What holds after every step. -/
structure Tunnel.Inv (p : Primitives) (view : L.Connection → ConnectionView) (keyUp keyDown : Bytes 32)
    (T : Tunnel L) : Prop where
  sendCounter : le T.tp.tpSendCounter = T.up.length
  sealable : T.up.length ≤ 2 ^ 60
  up : ∀ k msg, T.up[k]? = some msg → SealedUp p keyUp k msg
  complete : T.responder.handshakeComplete = true
  noise : ∃ noise, T.responder.noise = some noise ∧
    view noise = .transport keyUp T.served.length keyDown T.down.length
  counter : T.responder.sendCounter = T.down.length
  postable : T.down.length ≤ 2 ^ 64 - 1
  down : ∀ k msg, T.down[k]? = some msg → SealedDown p keyDown k msg
  served : T.served <+: T.up.map Message.plain
  accepted : ∀ x ∈ T.accepted, ∃ msg, T.down[le x.1]? = some msg ∧ x.2 = msg.plain
  remembers : ¬ T.forgot →
    Remembers c64Policy (T.accepted.map fun x => le x.1).reverse (window T.tp) ∧
      (T.accepted.map fun x => le x.1).Nodup
  forgot : T.forgot → 256 < T.down.length

namespace Tunnel

variable {T T' : Tunnel L}

theorem getElem?_append_one {α : Type} {l : List α} {x y : α} {k : Nat}
    (h : (l ++ [x])[k]? = some y) : l[k]? = some y ∨ k = l.length ∧ y = x := by
  rcases Nat.lt_trichotomy k l.length with hlt | rfl | hgt
  · rw [List.getElem?_append_left hlt] at h
    exact Or.inl h
  · rw [List.getElem?_concat_length] at h
    exact Or.inr ⟨rfl, (Option.some.inj h).symm⟩
  · rw [List.getElem?_eq_none (by simp; omega)] at h
    cases h

/-- What has been sent stays sent. -/
theorem getElem?_append_some {α : Type} {l : List α} {y : α} {k : Nat} (x : α)
    (h : l[k]? = some y) : (l ++ [x])[k]? = some y := by
  obtain ⟨hlt, -⟩ := List.getElem?_eq_some_iff.mp h
  rwa [List.getElem?_append_left hlt]

theorem window_transportEncrypt (p : Primitives) (key : Bytes 32) (payload : Bytes udpRecvBufSize)
    (c : CryptoMem) (t : TpMem) : window (transportEncrypt p key payload c t).2.1 = window t := by
  rw [transportEncrypt]
  dsimp only
  split
  · rfl
  · split <;> rfl

/-- The C64 seals a packet, or refuses. -/
theorem Inv.c64Encrypt (hi : AeadInverts p) (h : T.Inv p view keyUp keyDown) (pt : Plaintext) :
    (T.c64Encrypt p keyUp pt).Inv p view keyUp keyDown := by
  have hwindow := window_transportEncrypt p keyUp pt.buf T.crypto { T.tp with tpPayloadLen := pt.len }
  rcases transportEncrypt_cases p keyUp pt.buf T.crypto { T.tp with tpPayloadLen := pt.len } with
    ⟨c', t', rekey, heq, hsame, -⟩ | ⟨ct, tag, c', rekey, heq, hlim, henc⟩
  · have hstep : T.c64Encrypt p keyUp pt = { T with crypto := c', tp := t' } := by
      simp only [Tunnel.c64Encrypt, heq, if_true]
    rw [heq] at hwindow
    rw [hstep]
    exact { h with
      sendCounter := (congrArg le hsame).trans h.sendCounter
      remembers := fun hforgot => (show window t' = window T.tp from hwindow) ▸ h.remembers hforgot }
  · generalize ht' : encryptedMem pt.buf { T.tp with tpPayloadLen := pt.len } ct tag = t' at *
    have hstep : T.c64Encrypt p keyUp pt =
        { T with crypto := c', tp := t', up := T.up ++ [⟨pt.bytes, tpPacketBytes t'⟩] } := by
      simp [Tunnel.c64Encrypt, heq]
    have hlt := (top_byte_lt_iff _).mp hlim
    dsimp only at hlt
    rw [h.sendCounter] at hlt
    have hinc : le t'.tpSendCounter = T.up.length + 1 := by
      rw [← ht']
      simp only [encryptedMem, counterInc64, le_inc, h.sendCounter]
      omega
    have hsealed := sealedAs_encryptedMem hi (t := { T.tp with tpPayloadLen := pt.len }) rfl henc
    rw [ht'] at hsealed
    have hnumber : le T.tp.tpSendCounter = T.up.length := h.sendCounter
    dsimp only at hsealed
    rw [hnumber] at hsealed
    rw [heq] at hwindow
    rw [hstep]
    exact { h with
      sendCounter := by
        rw [hinc]
        simp
      sealable := by
        rw [List.length_append]
        exact hlt
      up := fun k msg hget => by
        rcases getElem?_append_one hget with hold | ⟨rfl, rfl⟩
        · exact h.up k msg hold
        · exact ⟨hsealed.type, hsealed.long, hsealed.short, hsealed.opens⟩
      served := by
        rw [List.map_append]
        exact h.served.trans (List.prefix_append _ _)
      remembers := fun hforgot => (show window t' = window T.tp from hwindow) ▸ h.remembers hforgot }

/-- The responder seals a packet. -/
theorem Inv.responderEncrypt (he : L.Encrypts p view) (ha : AeadAcceptsTransport p)
    (h : T.Inv p view keyUp keyDown) {plain : List UInt8} (short : plain.length ≤ 1468)
    (room : T.down.length < 2 ^ 64 - 1) :
    (T.responderEncrypt plain).Inv p view keyUp keyDown := by
  obtain ⟨noise, hnoise, hview⟩ := h.noise
  have hsome := ha keyDown (transportNonce T.down.length) (ofList plain.length plain) short
  obtain ⟨⟨ct, tag⟩, henc⟩ := Option.isSome_iff_exists.mp hsome
  obtain ⟨noise', hencrypt, hview'⟩ := he noise _ _ _ _ plain ct tag hview room henc
  let r : Responder L :=
    { T.responder with
      noise := some noise', sendCounter := T.down.length + 1, handshakeComplete := true }
  let idx := T.responder.c64SenderIdx.getD (zero 4)
  have hpacket : T.responder.encryptTransport plain =
      (r, .ok (sealedPacket idx (counterOf T.down.length) ct tag)) := by
    simp only [Responder.encryptTransport, h.complete, hnoise, hencrypt, h.counter]
    rw [if_pos (by omega)]
    rfl
  have hstep : T.responderEncrypt plain = { T with
      responder := r
      down := T.down ++ [⟨plain, sealedPacket idx (counterOf T.down.length) ct tag⟩] } := by
    simp only [Tunnel.responderEncrypt, hpacket]
  rw [hstep]
  exact { h with
    complete := rfl
    noise := ⟨noise', rfl, by rw [hview', List.length_append]; rfl⟩
    counter := by
      rw [List.length_append]
      rfl
    postable := by
      rw [List.length_append]
      exact room
    down := fun k msg hget => by
      rcases getElem?_append_one hget with hold | ⟨rfl, rfl⟩
      · exact h.down k msg hold
      · exact ⟨_, _, ct, tag, idx, short, henc, (toList_ofList rfl).symm, rfl⟩
    accepted := fun x hx => by
      obtain ⟨msg, hget, hplain⟩ := h.accepted x hx
      exact ⟨msg, getElem?_append_some _ hget, hplain⟩
    forgot := fun hforgot => by
      have hmany := h.forgot hforgot
      rw [List.length_append]
      exact Nat.lt_add_right _ hmany }

/-- What the responder makes of a datagram: it stays as it is, or opens it under the number it has
come to. -/
theorem responderDecrypt_cases (hL : L.Implements p view) (h : T.Inv p view keyUp keyDown)
    {packet : List UInt8} (short : packet.length < 2 ^ 16) :
    (T.responderDecrypt packet = T ∧ ¬ (packet.getD 0 0 = msgTypeTransport ∧
      t4HdrLen + 16 ≤ packet.length ∧
      (transportOpen p keyUp T.served.length (packet.drop t4HdrLen)).isSome)) ∨
    ∃ plain noise', transportOpen p keyUp T.served.length (packet.drop t4HdrLen) = some plain ∧
      T.responderDecrypt packet =
        { T with
          responder := { T.responder with noise := some noise' }
          served := T.served ++ [plain] } ∧
      view noise' = .transport keyUp (T.served.length + 1) keyDown T.down.length := by
  obtain ⟨noise, hnoise, hview⟩ := h.noise
  by_cases hlong : packet.length < t4HdrLen + 16
  · refine Or.inl ⟨?_, fun hcontra => absurd hlong (Nat.not_lt.mpr hcontra.2.1)⟩
    simp only [Tunnel.responderDecrypt, Responder.decryptTransport, h.complete, hnoise, if_pos hlong]
  by_cases htype : packet.getD 0 0 = msgTypeTransport
  swap
  · refine Or.inl ⟨?_, fun hcontra => htype hcontra.1⟩
    simp only [Tunnel.responderDecrypt, Responder.decryptTransport, h.complete, hnoise]
    rw [if_neg hlong, if_pos htype]
  have hserved : T.served.length < 2 ^ 64 - 1 := by
    have hle := h.served.length_le
    have hmax := h.sealable
    rw [List.length_map] at hle
    omega
  have hdec := hL.decrypt noise _ _ _ _ (packet.drop t4HdrLen) hview hserved
    (by rw [List.length_drop]; omega)
  have heq : T.responder.decryptTransport packet =
      ({ T.responder with noise := some (L.decrypt noise (packet.drop t4HdrLen)).1 },
        (L.decrypt noise (packet.drop t4HdrLen)).2) := by
    simp only [Responder.decryptTransport, h.complete, hnoise]
    rw [if_neg hlong, if_neg (not_not.mpr htype)]
  cases hopen : transportOpen p keyUp T.served.length (packet.drop t4HdrLen) with
  | none =>
    rw [hopen] at hdec
    rw [hdec] at heq
    refine Or.inl ⟨?_, fun hcontra => Bool.noConfusion hcontra.2.2⟩
    simp only [Tunnel.responderDecrypt, heq, ← hnoise]
  | some plain =>
    rw [hopen] at hdec
    obtain ⟨noise', hnoise', hview'⟩ := hdec
    rw [hnoise'] at heq
    refine Or.inr ⟨plain, noise', rfl, ?_, hview'⟩
    simp only [Tunnel.responderDecrypt, heq]

theorem prefix_append_one {α : Type} {l m : List α} {x : α} (h : l <+: m)
    (hx : m[l.length]? = some x) : l ++ [x] <+: m := by
  obtain ⟨rest, rfl⟩ := h
  rw [List.getElem?_append_right (le_refl _), Nat.sub_self] at hx
  cases rest with
  | nil => cases hx
  | cons y rest =>
    obtain rfl : y = x := by simpa using hx
    exact ⟨rest, by simp⟩

/-- A datagram reaches the responder. -/
theorem Inv.responderDecrypt (hL : L.Implements p view) (h : T.Inv p view keyUp keyDown)
    {packet : List UInt8} (short : packet.length < 2 ^ 16)
    (unforged : Unforged p keyUp (T.up.map Message.packet) T.served.length packet) :
    (T.responderDecrypt packet).Inv p view keyUp keyDown := by
  rcases responderDecrypt_cases hL h short with ⟨hsame, -⟩ | ⟨plain, noise', hopen, hstep, hview⟩
  · rw [hsame]
    exact h
  obtain ⟨msg, hget, hsealed⟩ := unforged.message (by rw [hopen]; rfl)
  have hplain : msg.plain = plain := by
    have hown := (h.up _ _ hget).opens
    rw [hsealed, hopen] at hown
    exact (Option.some.inj hown).symm
  rw [hstep]
  exact { h with
    noise := ⟨noise', rfl, by rw [hview, List.length_append]; rfl⟩
    served := by
      refine prefix_append_one h.served ?_
      rw [List.getElem?_map, hget]
      exact congrArg some hplain }

/-! ## To the C64 -/

/-- The bytes behind the header of a datagram. -/
theorem bytes_drop_header {udp : UdpRecv} (hlong : 32 ≤ udp.udpRecvLen) :
    udp.bytes.drop t4HdrLen = (slice udp.udpRecvBuf 16 (udp.udpRecvLen - 32)).toList ++
      (slice udp.udpRecvBuf (16 + (udp.udpRecvLen - 32)) 16).toList := by
  have hmax := udp.udpRecvLen_le
  have hfits : 16 + (udp.udpRecvLen - 32 + 16) ≤ udpRecvBufSize := by omega
  have hrest : udp.udpRecvLen - 16 = udp.udpRecvLen - 32 + 16 := by omega
  have hhdr : t4HdrLen = 16 := rfl
  rw [← toList_slice_add _ hfits, toList_slice _ hfits, UdpRecv.bytes, toList_slice _ (by omega),
    List.drop_zero, List.drop_take, hhdr, hrest]

/-- A datagram opens under the counter it carries when the C64's check of the tag says so. -/
theorem transportOpen_bytes {udp : UdpRecv} (hlong : 32 ≤ udp.udpRecvLen) :
    transportOpen p keyDown (le (packetCounter udp)) (udp.bytes.drop t4HdrLen) =
      if authentic p keyDown udp = true then
        some (p.aeadDecrypt keyDown (transportBuildNonce (packetCounter udp)) []
          (slice udp.udpRecvBuf 16 (udp.udpRecvLen - 32))
          (slice udp.udpRecvBuf (16 + (udp.udpRecvLen - 32)) 16)).2.toList
      else none := by
  rw [bytes_drop_header hlong, transportOpen_eq, transportNonce, counterOf_le, authentic,
    decide_eq_true hlong, Bool.true_and]

theorem long_of_authentic {udp : UdpRecv} (hauth : authentic p keyDown udp = true) :
    32 ≤ udp.udpRecvLen := by
  rw [authentic, Bool.and_eq_true, decide_eq_true_eq] at hauth
  exact hauth.1

/-- An authentic datagram opens, and when it is accepted what it opens to is what is left. -/
theorem opens_of_accepts {udp : UdpRecv} (c : CryptoMem) {t : TpMem}
    (hacc : accepts p keyDown udp t = true) :
    transportOpen p keyDown (le (packetCounter udp)) (udp.bytes.drop t4HdrLen) =
      some (slice (transportDecrypt p keyDown udp c t).2.2.tpPacket 16
        (transportDecrypt p keyDown udp c t).2.2.tpPayloadLen).toList := by
  have hauth : authentic p keyDown udp = true := by
    rw [accepts, Bool.and_eq_true] at hacc
    exact hacc.2
  have hlong := long_of_authentic hauth
  have hmax := udp.udpRecvLen_le
  have hfits : 16 + (udp.udpRecvLen - 32) ≤ udpRecvBufSize := by omega
  rw [transportOpen_bytes hlong, if_pos hauth]
  obtain ⟨-, lo, hi', c', heq, -⟩ | ⟨hno, -⟩ := transportDecrypt_cases p keyDown udp c t
  · obtain ⟨hpacket, hlen⟩ := windowUpdate_packet (decryptedMem p keyDown udp t lo hi')
    rw [heq]
    dsimp only
    rw [hpacket, hlen]
    simp only [decryptedMem, decryptedPacket]
    rw [slice_copyIn_self _ _ hfits]
  · rw [hacc] at hno
    cases hno

/-- What the C64 makes of a datagram: it leaves the session as it is, or accepts what it opens to under
its counter. -/
theorem c64Decrypt_cases (T : Tunnel L) (udp : UdpRecv) :
    (accepts p keyDown udp T.tp = false ∧ ∃ crypto tp, tp.session = T.tp.session ∧
      T.c64Decrypt p keyDown udp =
        { T with crypto := crypto, tp := tp, forgot := T.forgot ∨ forgets p keyDown udp T.tp }) ∨
    (accepts p keyDown udp T.tp = true ∧ ∃ crypto tp plain, tp.tpSendCounter = T.tp.tpSendCounter ∧
      window tp = accept c64Policy (window T.tp) (le (packetCounter udp)) ∧
      transportOpen p keyDown (le (packetCounter udp)) (udp.bytes.drop t4HdrLen) = some plain ∧
      T.c64Decrypt p keyDown udp =
        { T with
          crypto := crypto
          tp := tp
          accepted := T.accepted ++ [(packetCounter udp, plain)]
          forgot := T.forgot ∨ forgets p keyDown udp T.tp }) := by
  have hok := transportDecrypt_ok p keyDown udp T.crypto T.tp
  have hsend := (transportDecrypt_send p keyDown udp T.crypto T.tp).1
  cases hacc : accepts p keyDown udp T.tp with
  | false =>
    have hsession := transportDecrypt_rejects (c := T.crypto) hacc
    rw [hacc] at hok
    refine Or.inl ⟨rfl, (transportDecrypt p keyDown udp T.crypto T.tp).2.1, _, hsession, ?_⟩
    simp [Tunnel.c64Decrypt, hok]
  | true =>
    have hopen := opens_of_accepts T.crypto hacc
    have hwindow := (transportDecrypt_window (c := T.crypto) hacc).1
    rw [hacc] at hok
    refine Or.inr ⟨rfl, (transportDecrypt p keyDown udp T.crypto T.tp).2.1, _, _, hsend, hwindow, hopen,
      ?_⟩
    simp [Tunnel.c64Decrypt, hok]

/-- What an authentic datagram opens to is what was sealed under its counter. -/
theorem sealed_of_authentic {udp : UdpRecv}
    (unforged : Unforged p keyDown (T.down.map Message.packet) (le (packetCounter udp)) udp.bytes)
    (hauth : authentic p keyDown udp = true) :
    ∃ msg, T.down[le (packetCounter udp)]? = some msg ∧
      msg.packet.drop t4HdrLen = udp.bytes.drop t4HdrLen := by
  apply unforged.message
  rw [transportOpen_bytes (long_of_authentic hauth), if_pos hauth]
  rfl

theorem authentic_of_eligible {udp : UdpRecv} (hel : eligible p keyDown udp = true) :
    authentic p keyDown udp = true := by
  simp only [eligible, Bool.and_eq_true] at hel
  exact hel.2

/-- A packet of the responder opens under its own number. -/
theorem opens_of_sealedDown (hi : AeadInverts p) {k : Nat} {msg : Message}
    (h : SealedDown p keyDown k msg) :
    transportOpen p keyDown k (msg.packet.drop t4HdrLen) = some msg.plain := by
  obtain ⟨n, payload, ct, tag, idx, -, henc, hplain, hpacket⟩ := h
  have hdrop : msg.packet.drop t4HdrLen = ct.toList ++ tag.toList := by
    rw [hpacket, sealedPacket]
    exact List.drop_left' (by simp [t4HdrLen])
  have hopen := hi _ _ _ _ _ _ henc
  rw [hdrop, transportOpen_eq, hopen, hplain]
  rfl

/-- A datagram reaches the C64. -/
theorem Inv.c64Decrypt (hi : AeadInverts p) (h : T.Inv p view keyUp keyDown) {udp : UdpRecv}
    (unforged : Unforged p keyDown (T.down.map Message.packet) (le (packetCounter udp)) udp.bytes) :
    (T.c64Decrypt p keyDown udp).Inv p view keyUp keyDown := by
  -- A jump that makes the window forget comes from a counter the responder has reached.
  have hforgot : T.forgot ∨ forgets p keyDown udp T.tp → 256 < T.down.length := by
    rintro (hf | ⟨hel, hjump, -⟩)
    · exact h.forgot hf
    · obtain ⟨msg, hget, -⟩ := sealed_of_authentic unforged (authentic_of_eligible hel)
      obtain ⟨hlt, -⟩ := List.getElem?_eq_some_iff.mp hget
      omega
  rcases @c64Decrypt_cases _ p keyDown T udp with
    ⟨-, crypto, tp, hsession, hstep⟩ | ⟨hacc, crypto, tp, plain, hsend, hwindow, hopen, hstep⟩
  · rw [hstep]
    exact { h with
      sendCounter := (congrArg (fun s => le s.1) hsession).trans h.sendCounter
      remembers := by
        intro hno
        rw [window_of_session hsession]
        exact h.remembers fun hf => hno (Or.inl hf)
      forgot := hforgot }
  · have hcases := accepts_eq p keyDown udp T.tp
    rw [hacc, eq_comm, Bool.and_eq_true] at hcases
    obtain ⟨hel, hadm⟩ := hcases
    obtain ⟨msg, hget, hsealed⟩ := sealed_of_authentic unforged (authentic_of_eligible hel)
    have hplain : plain = msg.plain := by
      have hown := opens_of_sealedDown hi (h.down _ _ hget)
      rw [hsealed, hopen] at hown
      exact Option.some.inj hown
    rw [hstep]
    exact { h with
      sendCounter := (congrArg le hsend).trans h.sendCounter
      accepted := by
        intro x hx
        rcases List.mem_append.mp hx with hold | hnew
        · exact h.accepted x hold
        · rw [List.mem_singleton.mp hnew]
          exact ⟨msg, hget, hplain⟩
      remembers := by
        intro hno
        obtain ⟨hremembers, hnodup⟩ := h.remembers fun hf => hno (Or.inl hf)
        have hkeeps := keeps_of_not_forgets hel fun hf => hno (Or.inr hf)
        have hnew := hremembers.not_mem hadm
        have haccept := hremembers.accept c64Policy_shrinking hkeeps
        have hback : ((T.accepted ++ [(packetCounter udp, plain)]).map fun x => le x.1).reverse =
            le (packetCounter udp) :: (T.accepted.map fun x => le x.1).reverse := by simp
        refine ⟨?_, List.nodup_reverse.mp ?_⟩
        · rw [hback, hwindow]
          exact haccept
        · rw [hback]
          exact List.nodup_cons.mpr ⟨hnew, List.nodup_reverse.mpr hnodup⟩
      forgot := hforgot }

/-- What happens between two steps. -/
theorem Inv.between (h : T.Inv p view keyUp keyDown) (crypto : CryptoMem) {tp : TpMem}
    (same : tp.session = T.tp.session) :
    ({ T with crypto := crypto, tp := tp } : Tunnel L).Inv p view keyUp keyDown :=
  { h with
    sendCounter := (congrArg (fun s => le s.1) same).trans h.sendCounter
    remembers := fun hno => (window_of_session same).symm ▸ h.remembers hno }

/-! ## Runs -/

theorem Inv.step (hL : L.Implements p view) (he : L.Encrypts p view) (ha : AeadAcceptsTransport p)
    (hi : AeadInverts p) (h : T.Inv p view keyUp keyDown) (hstep : Step p keyUp keyDown T T') :
    T'.Inv p view keyUp keyDown := by
  cases hstep with
  | c64Encrypt pt => exact h.c64Encrypt hi pt
  | responderEncrypt short room => exact h.responderEncrypt he ha short room
  | responderDecrypt short unforged => exact h.responderDecrypt hL short unforged
  | c64Decrypt unforged => exact h.c64Decrypt hi unforged
  | between crypto same => exact h.between crypto same

theorem Inv.run (hL : L.Implements p view) (he : L.Encrypts p view) (ha : AeadAcceptsTransport p)
    (hi : AeadInverts p) (h : T.Inv p view keyUp keyDown)
    (hrun : Relation.ReflTransGen (Step p keyUp keyDown) T T') : T'.Inv p view keyUp keyDown := by
  induction hrun with
  | refl => exact h
  | tail _ hstep ih => exact ih.step hL he ha hi hstep

/-! ## What arrives is read -/

/-- Datagrams reach the responder one after the other. -/
def deliverUp (packets : List (List UInt8)) (T : Tunnel L) : Tunnel L :=
  packets.foldl (fun T packet => T.responderDecrypt packet) T

/-- Datagrams reach the C64 one after the other. -/
def deliverDown (p : Primitives) (keyDown : Bytes 32) (udps : List UdpRecv) (T : Tunnel L) :
    Tunnel L :=
  udps.foldl (fun T udp => T.c64Decrypt p keyDown udp) T

/-- The packet the responder waits for. -/
theorem Inv.responderDecrypt_next (hL : L.Implements p view) (h : T.Inv p view keyUp keyDown)
    {msg : Message} (hget : T.up[T.served.length]? = some msg) :
    ∃ r, T.responderDecrypt msg.packet =
      { T with responder := r, served := T.served ++ [msg.plain] } := by
  have hsealed := h.up _ _ hget
  rcases responderDecrypt_cases hL h hsealed.short with ⟨-, hno⟩ | ⟨plain, noise', hopen, hstep, -⟩
  · exact absurd ⟨hsealed.type, hsealed.long, by rw [hsealed.opens]; rfl⟩ hno
  · rw [hsealed.opens] at hopen
    rw [hstep, ← Option.some.inj hopen]
    exact ⟨_, rfl⟩

/-- The responder turns every other packet away and keeps waiting. -/
theorem Inv.responderDecrypt_other (hL : L.Implements p view) (h : T.Inv p view keyUp keyDown)
    {packet : List UInt8} (short : packet.length < 2 ^ 16)
    (unforged : Unforged p keyUp (T.up.map Message.packet) T.served.length packet)
    (hother : ∀ msg, T.up[T.served.length]? = some msg →
      msg.packet.drop t4HdrLen ≠ packet.drop t4HdrLen) : T.responderDecrypt packet = T := by
  rcases responderDecrypt_cases hL h short with ⟨hsame, -⟩ | ⟨plain, noise', hopen, -, -⟩
  · exact hsame
  · obtain ⟨msg, hget, hsealed⟩ := unforged.message (by rw [hopen]; rfl)
    exact absurd hsealed (hother msg hget)

/-- What is outstanding, in order, brings the responder up to date. -/
theorem Inv.deliverUp (hL : L.Implements p view) (h : T.Inv p view keyUp keyDown)
    {outstanding : List Message} (hout : T.up.drop T.served.length = outstanding) :
    (T.deliverUp (outstanding.map Message.packet)).served = T.up.map Message.plain := by
  induction outstanding generalizing T with
  | nil =>
    have hall : T.up.length ≤ T.served.length := List.drop_eq_nil_iff.mp hout
    exact h.served.eq_of_length_le (by rw [List.length_map]; exact hall)
  | cons msg rest ih =>
    have hget : T.up[T.served.length]? = some msg := by
      rw [← List.head?_drop, hout]
      rfl
    have hsealed := h.up _ _ hget
    obtain ⟨r, hstep⟩ := h.responderDecrypt_next hL hget
    have hinv := h.responderDecrypt hL hsealed.short fun _ =>
      ⟨msg.packet, by rw [List.getElem?_map, hget]; rfl, rfl⟩
    rw [hstep] at hinv
    have hrest : T.up.drop (T.served ++ [msg.plain]).length = rest := by
      rw [List.length_append, List.length_singleton, ← List.drop_drop, hout]
      rfl
    rw [List.map_cons, Tunnel.deliverUp, List.foldl_cons, hstep]
    exact ih hinv hrest

/-- The datagram is a packet of the responder, with its number. -/
def Posted (T : Tunnel L) (udp : UdpRecv) (x : Nat × Message) : Prop :=
  T.down[x.1]? = some x.2 ∧ udp.bytes = x.2.packet

/-- A packet of the responder that a window admits. -/
theorem accepts_posted (hi : AeadInverts p) {udp : UdpRecv} {k : Nat} {msg : Message}
    (hdown : SealedDown p keyDown k msg) (hbytes : udp.bytes = msg.packet) (hmax : k < 2 ^ 60)
    {t : TpMem} (hadm : admits c64Policy (window t) k = true) :
    packetCounter udp = counterOf k ∧ accepts p keyDown udp t = true := by
  obtain ⟨n, payload, ct, tag, idx, hn, henc, hplain, hpacket⟩ := hdown
  have hlen : udp.udpRecvLen = n + 32 := by
    have hlength := congrArg List.length (hbytes.trans hpacket)
    simp only [UdpRecv.bytes, sealedPacket, List.length_append, Vector.length_toList,
      List.length_cons, List.length_nil] at hlength
    omega
  have hpkt : (slice udp.udpRecvBuf 0 (n + 32)).toList = sealedPacket idx (counterOf k) ct tag := by
    rw [← hpacket, ← hbytes, UdpRecv.bytes, hlen]
  have hcounter : packetCounter udp = counterOf k := by
    have hoff : ([4, 0, 0, 0] ++ idx.toList).length = 8 := by simp
    have hfield := slice_of_toList ([4, 0, 0, 0] ++ idx.toList) (ct.toList ++ tag.toList) hpkt hoff
    rwa [slice_slice _ _ (by omega), Nat.zero_add] at hfield
  have hle : le (counterOf k) = k := le_counterOf hmax
  refine ⟨hcounter, ?_⟩
  rw [← transportDecrypt_ok p keyDown udp (CryptoMem.start 0) t]
  exact (transportDecrypt_sealed hi hn henc (by rwa [hle]) hlen hpkt _ (by rwa [hle])).1

/-- The C64 takes it. -/
theorem Inv.c64Decrypt_posted (hi : AeadInverts p) (h : T.Inv p view keyUp keyDown) {udp : UdpRecv}
    {k : Nat} {msg : Message} (hpost : T.Posted udp (k, msg)) (hmax : k < 2 ^ 60)
    (hadm : admits c64Policy (window T.tp) k = true) :
    ∃ crypto tp, window tp = accept c64Policy (window T.tp) k ∧
      T.c64Decrypt p keyDown udp =
        { T with
          crypto := crypto
          tp := tp
          accepted := T.accepted ++ [(counterOf k, msg.plain)]
          forgot := T.forgot ∨ forgets p keyDown udp T.tp } ∧
      (T.c64Decrypt p keyDown udp).Inv p view keyUp keyDown := by
  obtain ⟨hget, hbytes⟩ := hpost
  dsimp only at hget hbytes
  have hdown := h.down _ _ hget
  have hopened := opens_of_sealedDown hi hdown
  obtain ⟨hcounter, hacc⟩ := accepts_posted hi hdown hbytes hmax hadm
  have hle : le (counterOf k) = k := le_counterOf hmax
  rcases @c64Decrypt_cases _ p keyDown T udp with
    ⟨hno, -⟩ | ⟨-, crypto, tp, plain, -, hwindow, hopen, hstep⟩
  · rw [hacc] at hno
    cases hno
  · rw [hcounter, hle, hbytes, hopened] at hopen
    rw [hcounter, hle] at hwindow
    rw [hcounter, ← Option.some.inj hopen] at hstep
    refine ⟨crypto, tp, hwindow, hstep, h.c64Decrypt hi fun _ => ⟨msg.packet, ?_, by rw [hbytes]⟩⟩
    rw [hcounter, hle, List.getElem?_map, hget]
    rfl

/-- Packets of the responder with rising numbers, none of them below the top of the window. -/
theorem Inv.deliverDown (hi : AeadInverts p) (h : T.Inv p view keyUp keyDown) {udps : List UdpRecv}
    {sent : List (Nat × Message)} (hpost : List.Forall₂ T.Posted udps sent)
    (hrising : sent.Pairwise fun x y => x.1 < y.1)
    (hadm : ∀ x ∈ sent, x.1 < 2 ^ 60 ∧ (window T.tp).top ≤ x.1 ∧
      admits c64Policy (window T.tp) x.1 = true) :
    (T.deliverDown p keyDown udps).accepted =
      T.accepted ++ sent.map fun x => (counterOf x.1, x.2.plain) := by
  induction sent generalizing T udps with
  | nil =>
    cases hpost
    simp [Tunnel.deliverDown]
  | cons x sent ih =>
    obtain ⟨k, msg⟩ := x
    cases hpost with
    | @cons udp _ udps _ hfirst hrest =>
      obtain ⟨hmax, htop, hadmits⟩ := hadm _ List.mem_cons_self
      obtain ⟨hbefore, hrising⟩ := List.pairwise_cons.mp hrising
      obtain ⟨crypto, tp, hwindow, hstep, hinv⟩ := h.c64Decrypt_posted hi hfirst hmax hadmits
      rw [hstep] at hinv
      have htop' : (window tp).top = k := by
        rw [hwindow]
        exact max_eq_right htop
      have hnext : ∀ x ∈ sent, x.1 < 2 ^ 60 ∧ (window tp).top ≤ x.1 ∧
          admits c64Policy (window tp) x.1 = true := by
        intro x hx
        have hlt : k < x.1 := hbefore x hx
        refine ⟨(hadm x (List.mem_cons_of_mem _ hx)).1, by omega, ?_⟩
        rw [admits, htop', decide_eq_true hlt, Bool.true_or]
      have hgo := ih hinv hrest hrising hnext
      rw [Tunnel.deliverDown, List.foldl_cons, hstep]
      refine hgo.trans ?_
      simp

/-! ## From the handshake on -/

/-- Two ends, and nothing between them yet. -/
def fresh (crypto : CryptoMem) (tp : TpMem) (r : Responder L) : Tunnel L where
  crypto := crypto
  tp := tp
  responder := r
  up := []
  down := []
  served := []
  accepted := []
  forgot := False

/-- The C64 initiates, the responder answers, the C64 takes the answer and runs `transport_init`: what
the C64 then holds, and the tunnel. -/
def opened (p : Primitives) (m : HsMem) (tp : TpMem) (r : Responder L) (e : Bytes 32) :
    Option (HsMem × Tunnel L) :=
  match r.handleInitiation (hsCreateInitiation p m).hsPacket.toList e with
  | (r', .ok response) =>
      let a := hsProcessResponse p
        { hsCreateInitiation p m with hsRespPacket := ofList 92 response }
      if a.1 then some (a.2, fresh a.2.toCryptoMem (transportInit (ofList 92 response) tp) r')
      else none
  | (_, .error _) => none

/-- After a handshake the two ends agree. -/
theorem fresh_inv (crypto : CryptoMem) (hsRespPacket : Bytes 92) (tp : TpMem) (r : Responder L)
    {noise : L.Connection} (senderIdx : Bytes 4) (timestamp : List UInt8)
    (hview : view noise = .transport keyUp 0 keyDown 0) :
    (fresh crypto (transportInit hsRespPacket tp) (r.commit noise senderIdx timestamp)).Inv p view
      keyUp keyDown where
  sendCounter := le_zero
  sealable := Nat.zero_le _
  up := fun k msg hget => by cases hget
  complete := rfl
  noise := ⟨noise, rfl, hview⟩
  counter := rfl
  postable := Nat.zero_le _
  down := fun k msg hget => by cases hget
  served := List.nil_prefix
  accepted := fun x hx => by cases hx
  remembers := fun _ => ⟨Remembers.nil _, List.nodup_nil⟩
  forgot := False.elim

end Tunnel

/-- The keys of the C64 belong to a responder's. -/
structure Matched (p : Primitives) (staticPriv : Bytes 32) (m : HsMem) : Prop where
  staticPub : m.hsStaticPub = p.x25519Base m.hsStaticPriv
  respPub : m.hsRespPub = p.x25519Base staticPriv
  es : Agrees p m.hsEphemPriv staticPriv
  ss : Agrees p m.hsStaticPriv staticPriv

/-- The two ends can complete a handshake: their keys belong together, and the initiation is newer than
any before. -/
structure Acquainted (p : Primitives) (r : Responder L) (m : HsMem) (e : Bytes 32) : Prop
    extends Matched p r.staticPriv m where
  unkeyed : Unkeyed m.b2s
  psk : r.psk = m.hsPresharedKey
  ee : Agrees p m.hsEphemPriv e
  se : Agrees p m.hsStaticPriv e
  fresh : ∀ g ∈ r.greatestTimestamps r.peerStaticPub, beNat g < be m.hsTimestamp

namespace Tunnel

/-- The C64 reads from the answer what the responder has put in it. -/
theorem response_answer (ha : AeadAccepts p) (hi : AeadInverts p) {r : Responder L} {m : HsMem}
    {e : Bytes 32} (h : Acquainted p r m e) :
    response p { hsCreateInitiation p m with
      hsRespPacket := ofList 92 (r.response p (initiationPacket p m) e (receivedInitiation p m)) } =
      some ((r.answer p e (receivedInitiation p m)).1, []) := by
  obtain ⟨cm, dh, hcells, -, -⟩ := hsCreateInitiation_spec ha h.unkeyed
  have hread := @Noise.readMessage2_writeMessage2 _ (c64Suite_correct ha hi) (initiation p m).1
    m.hsEphemPriv m.hsStaticPriv e (p.x25519Base m.hsEphemPriv) m.hsStaticPub m.hsPresharedKey []
    (by simp) h.ee.comm (h.staticPub ▸ h.se.comm)
  unfold response responseMsg
  rw [slice_response ha, hcells, Responder.answer, h.psk]
  exact hread

/-- A tunnel opens, and nothing has gone through it. -/
theorem opened_inv (hL : L.Implements p view) (ha : AeadAccepts p) (hi : AeadInverts p)
    {r : Responder L} {m : HsMem} {e : Bytes 32} (h : Acquainted p r m e) (tp : TpMem) :
    ∃ m' T, opened p m tp r e = some (m', T) ∧
      T.Inv p view m'.hsTransportSend m'.hsTransportRecv := by
  have haccepts := accepts_initiation hL ha hi h.staticPub h.respPub h.es h.ss h.ee h.se h.fresh
  obtain ⟨noise, hhandle, hview⟩ := Responder.handleInitiation_accepted hL ha haccepts
  obtain ⟨-, -, -, -, hlen⟩ := hsCreateInitiation_spec ha h.unkeyed
  have hpacket : (hsCreateInitiation p m).hsPacket.toList = initiationPacket p m := by
    rw [hsCreateInitiation_packet ha h.unkeyed, toList_ofList hlen]
  have hread := response_answer ha hi h
  obtain ⟨cm, dh, s, -, ⟨hsome, hproc⟩ | ⟨hnone, -⟩⟩ := hsProcessResponse_spec p
    { hsCreateInitiation p m with
      hsRespPacket := ofList 92 (r.response p (initiationPacket p m) e (receivedInitiation p m)) }
  swap
  · rw [hread] at hnone
    cases hnone
  rw [hread, Option.some.injEq, Prod.mk.injEq] at hsome
  rw [hsome.1] at hview
  rw [opened, hpacket, hhandle]
  dsimp only
  rw [hproc]
  exact ⟨_, _, if_pos rfl, fresh_inv _ _ _ _ _ _ hview⟩

/-- **The tunnel is safe.** Once the handshake has opened it, whatever the network does: the responder
has read a prefix of what the C64 has sealed; the C64 has accepted under each counter what the
responder has sealed under it; no counter has been accepted twice, unless the window has forgotten
one; and it has forgotten none before the responder has sealed more than 256 packets. -/
theorem tunnel_safe (hL : L.Implements p view) (he : L.Encrypts p view) (ha : AeadAccepts p)
    (ht : AeadAcceptsTransport p) (hi : AeadInverts p) {r : Responder L} {m : HsMem} {e : Bytes 32}
    (h : Acquainted p r m e) (tp : TpMem) :
    ∃ m' T₀, opened p m tp r e = some (m', T₀) ∧ ∀ T,
      Relation.ReflTransGen (Step p m'.hsTransportSend m'.hsTransportRecv) T₀ T →
        T.served <+: T.up.map Message.plain ∧
        (∀ x ∈ T.accepted, ∃ msg, T.down[le x.1]? = some msg ∧ x.2 = msg.plain) ∧
        (¬ T.forgot → (T.accepted.map Prod.fst).Nodup) ∧
        (T.forgot → 256 < T.down.length) := by
  obtain ⟨m', T₀, hopened, hinv⟩ := opened_inv hL ha hi h tp
  refine ⟨m', T₀, hopened, fun T hrun => ?_⟩
  have hT := hinv.run hL he ht hi hrun
  refine ⟨hT.served, hT.accepted, fun hno => ?_, hT.forgot⟩
  have hnodup := (hT.remembers hno).2
  rw [show (fun x : Bytes 8 × List UInt8 => le x.1) = le ∘ Prod.fst from rfl, ← List.map_map] at hnodup
  exact hnodup.of_map _

/-- The peers of the sample handshake. -/
theorem acquainted_sample : Acquainted rfcPrims (sampleResponder (X25519.base (sampleKey 1)))
    sampleInitiator (sampleKey 2) where
  unkeyed := ⟨rfl, rfl⟩
  staticPub := rfl
  respPub := rfl
  psk := rfl
  es := agrees_sample.1
  ss := agrees_sample.2
  ee := agrees_sample.1
  se := agrees_sample.2
  fresh := fun _ h => by cases h

/-- Between them, none of the first 256 packets is accepted twice. -/
theorem tunnel_safe_sample :
    ∃ m' T₀, opened rfcPrims sampleInitiator .start
        (sampleResponder (X25519.base (sampleKey 1))) (sampleKey 2) = some (m', T₀) ∧
      ∀ T, Relation.ReflTransGen (Step rfcPrims m'.hsTransportSend m'.hsTransportRecv) T₀ T →
        T.down.length ≤ 256 → (T.accepted.map Prod.fst).Nodup := by
  obtain ⟨m', T₀, hopened, hsafe⟩ := tunnel_safe (rfcNoise_implements rfcPrims)
    (rfcNoise_encrypts rfcPrims) (fun _ _ _ _ _ _ => rfl) (fun _ _ _ _ _ => rfl)
    rfcPrims_aeadInverts acquainted_sample TpMem.start
  refine ⟨m', T₀, hopened, fun T hrun hfew => ?_⟩
  obtain ⟨-, -, hnodup, hforgot⟩ := hsafe T hrun
  exact hnodup fun hf => absurd (hforgot hf) (Nat.not_lt.mpr hfew)

/-- **The tunnel lives.** Wherever a run of it has come: the responder reads all it has not read yet
when that arrives in order, and until the next packet arrives it reads nothing else; and the C64
accepts every sequence of packets with rising numbers that starts no lower than its window. -/
theorem tunnel_live (hL : L.Implements p view) (he : L.Encrypts p view) (ha : AeadAccepts p)
    (ht : AeadAcceptsTransport p) (hi : AeadInverts p) {r : Responder L} {m : HsMem} {e : Bytes 32}
    (h : Acquainted p r m e) (tp : TpMem) :
    ∃ m' T₀, opened p m tp r e = some (m', T₀) ∧ ∀ T,
      Relation.ReflTransGen (Step p m'.hsTransportSend m'.hsTransportRecv) T₀ T →
        (T.deliverUp ((T.up.drop T.served.length).map Message.packet)).served =
          T.up.map Message.plain ∧
        (∀ packet, packet.length < 2 ^ 16 →
          Unforged p m'.hsTransportSend (T.up.map Message.packet) T.served.length packet →
          (∀ msg, T.up[T.served.length]? = some msg →
            msg.packet.drop t4HdrLen ≠ packet.drop t4HdrLen) → T.responderDecrypt packet = T) ∧
        ∀ udps sent, List.Forall₂ T.Posted udps sent → sent.Pairwise (fun x y => x.1 < y.1) →
          (∀ x ∈ sent, x.1 < 2 ^ 60 ∧ (window T.tp).top ≤ x.1 ∧
            admits c64Policy (window T.tp) x.1 = true) →
          (T.deliverDown p m'.hsTransportRecv udps).accepted =
            T.accepted ++ sent.map fun x => (counterOf x.1, x.2.plain) := by
  obtain ⟨m', T₀, hopened, hinv⟩ := opened_inv hL ha hi h tp
  refine ⟨m', T₀, hopened, fun T hrun => ?_⟩
  have hT := hinv.run hL he ht hi hrun
  refine ⟨hT.deliverUp hL rfl, ?_, ?_⟩
  · intro packet short unforged hother
    exact hT.responderDecrypt_other hL short unforged hother
  · intro udps sent hpost hrising hadm
    exact hT.deliverDown hi hpost hrising hadm

/-- The sample responder reads all that is sealed to it. -/
theorem tunnel_live_sample :
    ∃ m' T₀, opened rfcPrims sampleInitiator .start
        (sampleResponder (X25519.base (sampleKey 1))) (sampleKey 2) = some (m', T₀) ∧
      ∀ T, Relation.ReflTransGen (Step rfcPrims m'.hsTransportSend m'.hsTransportRecv) T₀ T →
        (T.deliverUp ((T.up.drop T.served.length).map Message.packet)).served =
          T.up.map Message.plain := by
  obtain ⟨m', T₀, hopened, hlive⟩ := tunnel_live (rfcNoise_implements rfcPrims)
    (rfcNoise_encrypts rfcPrims) (fun _ _ _ _ _ _ => rfl) (fun _ _ _ _ _ => rfl)
    rfcPrims_aeadInverts acquainted_sample TpMem.start
  exact ⟨m', T₀, hopened, fun T hrun => (hlive T hrun).1⟩

end Tunnel

end C64WireGuard
