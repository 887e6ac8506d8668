import C64WireGuard.Agreement
import C64WireGuard.Session
import C64WireGuard.TransportWindow
import Mathlib.Data.Fintype.Card

/-!
# Transport packets at the responder

`decrypt_transport` skips the 16-byte header and lets the library number the packets, so a packet is
opened under the number of packets opened before it. `sealAll` is a session of the C64, whose `k`-th
packet is sealed under the counter `k` (`sealAll_get`). `decryptTransport_order_iff` compares the
two: a delivery order works exactly when every packet arrives as the one it is counted to be.
-/

namespace C64WireGuard

open Bytes

variable {L : NoiseLib} {p : Primitives} {view : L.Connection → ConnectionView}

/-! ## One packet -/

/-- Splitting a ciphertext off its tag by length gives both back. -/
theorem apply_split_tag {α : Type} (f : (k : Nat) → Bytes k → Bytes 16 → α) {n : Nat} (c : Bytes n)
    (tag : Bytes 16) :
    f ((c.toList ++ tag.toList).length - 16)
      (ofList ((c.toList ++ tag.toList).length - 16) (c.toList ++ tag.toList))
      (ofList 16 ((c.toList ++ tag.toList).drop ((c.toList ++ tag.toList).length - 16))) =
    f n c tag := by
  have hlen : (c.toList ++ tag.toList).length - 16 = n := by simp
  have hdrop : ofList 16 ((c.toList ++ tag.toList).drop n) = tag := by
    rw [List.drop_left' (by simp), ofList_toList]
  have hc : ofList n (c.toList ++ tag.toList) = c := by
    apply ext_byte
    intro i hi
    rw [byte_ofList, if_pos hi, List.getD_eq_getElem?_getD, List.getElem?_append_left (by simpa),
      ← List.getD_eq_getElem?_getD, getD_toList]
  rw [hlen, hdrop, hc]

theorem transportOpen_eq (key : Bytes 32) (k : Nat) {n : Nat} (c : Bytes n) (tag : Bytes 16) :
    transportOpen p key k (c.toList ++ tag.toList) =
      if (p.aeadDecrypt key (transportNonce k) [] c tag).1 = true then
        some (p.aeadDecrypt key (transportNonce k) [] c tag).2.toList
      else none := by
  have hlen : 16 ≤ (c.toList ++ tag.toList).length := by simp
  have hsplit := apply_split_tag (fun _ c tag =>
    let r := p.aeadDecrypt key (transportNonce k) [] c tag
    if r.1 = true then some r.2.toList else none) c tag
  rw [← hsplit]
  simp only [transportOpen, hlen, true_and]

/-- The bytes of a packet sealed by `transport_encrypt`. -/
theorem tpPacketBytes_encryptedMem (payload : Bytes udpRecvBufSize) {t : TpMem}
    (hlen : t.tpPayloadLen + 32 ≤ udpRecvBufSize) (ciphertext : Bytes t.tpPayloadLen)
    (tag : Bytes 16) :
    tpPacketBytes (encryptedMem payload t ciphertext tag) =
      [4, 0, 0, 0] ++ t.tpPeerRecvIdx.toList ++ t.tpSendCounter.toList ++
        (ciphertext.toList ++ tag.toList) := by
  have hsize : (t.tpPayloadLen + 32) % 65536 = 16 + (t.tpPayloadLen + 16) := by
    rw [udpRecvBufSize] at hlen
    omega
  have hcells : ∀ n, n = 16 + (t.tpPayloadLen + 16) →
      (slice (copyIn (copyIn (encryptStage payload t) 16 ciphertext) (16 + t.tpPayloadLen) tag) 0
        n).toList =
      [4, 0, 0, 0] ++ t.tpPeerRecvIdx.toList ++ t.tpSendCounter.toList ++
        (ciphertext.toList ++ tag.toList) := by
    rintro n rfl
    have hhdr : (slice (encryptStage payload t) 0 16).toList =
        [4, 0, 0, 0] ++ t.tpPeerRecvIdx.toList ++ t.tpSendCounter.toList := by
      unfold encryptStage
      rw [copy16_eq, slice_copyIn_disjoint _ _ (Or.inr (by decide)),
        toList_slice_copyIn (k := 8) (l := 8) _ _ (by decide),
        toList_slice_copyIn (k := 4) (l := 4) _ _ (by decide), slice_copyIn_self _ _ (by decide)]
      rfl
    rw [show 16 + (t.tpPayloadLen + 16) = 16 + t.tpPayloadLen + 16 by omega,
      toList_slice_copyIn (k := 16 + t.tpPayloadLen) (l := 16) _ _ (by omega),
      toList_slice_copyIn (k := 16) (l := t.tpPayloadLen) _ _ (by omega), hhdr,
      List.append_assoc _ ciphertext.toList]
  exact hcells _ hsize

/-- The plaintext behind the header, before it is encrypted in place. -/
theorem slice_encryptStage (payload : Bytes udpRecvBufSize) (t : TpMem)
    (hlen : t.tpPayloadLen + 32 ≤ udpRecvBufSize) :
    slice (encryptStage payload t) 16 t.tpPayloadLen = slice payload 0 t.tpPayloadLen := by
  unfold encryptStage
  rw [copy16_eq, slice_copyIn_self _ _ (by omega)]

theorem counterOf_le (c : Bytes 8) : counterOf (le c) = c := by
  rw [← le_inj, counterOf, le_digits]
  exact Nat.mod_eq_of_lt (le_lt c)

/-! ## A session of the C64 -/

/-- A plaintext that a caller of `transport_encrypt` stages. -/
structure Plaintext where
  buf : Bytes udpRecvBufSize
  len : Nat
  fits : len + 32 ≤ udpRecvBufSize

/-- Its bytes. -/
def Plaintext.bytes (pt : Plaintext) : List UInt8 := (slice pt.buf 0 pt.len).toList

/-- The packets of a session, each with its plaintext: those that `transport_encrypt` does not
refuse. -/
def sealAll (p : Primitives) (key : Bytes 32) :
    CryptoMem → TpMem → List Plaintext → List (Plaintext × List UInt8)
  | _, _, [] => []
  | c, t, pt :: pts =>
      let r := transportEncrypt p key pt.buf c { t with tpPayloadLen := pt.len }
      if r.2.2.1 then sealAll p key r.1 r.2.1 pts
      else (pt, tpPacketBytes r.2.1) :: sealAll p key r.1 r.2.1 pts

/-- A packet is well formed, short, and opens under a number. -/
structure SealedAs (p : Primitives) (key : Bytes 32) (k : Nat) (pt : Plaintext)
    (packet : List UInt8) : Prop where
  type : packet.getD 0 0 = msgTypeTransport
  long : t4HdrLen + 16 ≤ packet.length
  short : packet.length < 2 ^ 16
  opens : transportOpen p key k (packet.drop t4HdrLen) = some pt.bytes

theorem sealedAs_encryptedMem (hi : AeadInverts p) {key : Bytes 32} {pt : Plaintext} {t : TpMem}
    (hlen : t.tpPayloadLen = pt.len) {ciphertext : Bytes t.tpPayloadLen} {tag : Bytes 16}
    (henc : p.aeadEncrypt key (transportBuildNonce t.tpSendCounter) []
      (slice (encryptStage pt.buf t) 16 t.tpPayloadLen) = some (ciphertext, tag)) :
    SealedAs p key (le t.tpSendCounter) pt (tpPacketBytes (encryptedMem pt.buf t ciphertext tag)) := by
  have hfits := pt.fits
  rw [udpRecvBufSize] at hfits
  rw [slice_encryptStage _ _ (by rw [hlen]; exact pt.fits)] at henc
  rw [tpPacketBytes_encryptedMem _ (by rw [hlen]; exact pt.fits)]
  refine ⟨rfl, by simp [t4HdrLen]; omega, by simp; omega, ?_⟩
  have hnonce : transportNonce (le t.tpSendCounter) = transportBuildNonce t.tpSendCounter := by
    rw [transportNonce, counterOf_le]
  rw [List.drop_left' (by simp [t4HdrLen]), transportOpen_eq, hnonce, hi _ _ _ _ _ _ henc, if_pos rfl,
    hlen]
  rfl

/-- **The packets of a session are numbered by their counters**, which stay below 2^60. -/
theorem sealAll_get (hi : AeadInverts p) (key : Bytes 32) (pts : List Plaintext) (c : CryptoMem)
    (t : TpMem) :
    (sealAll p key c t pts = [] ∨
      le t.tpSendCounter + (sealAll p key c t pts).length ≤ 2 ^ 60) ∧
    ∀ k (h : k < (sealAll p key c t pts).length),
      SealedAs p key (le t.tpSendCounter + k) ((sealAll p key c t pts)[k].1)
        ((sealAll p key c t pts)[k].2) := by
  induction pts generalizing c t with
  | nil => exact ⟨Or.inl rfl, fun k h => absurd h (Nat.not_lt_zero k)⟩
  | cons pt pts ih =>
    rcases transportEncrypt_cases p key pt.buf c { t with tpPayloadLen := pt.len } with
      ⟨c', t', rekey, heq, hsame, -⟩ | ⟨ct, tag, c', rekey, heq, hlim, henc⟩
    · have hcons : sealAll p key c t (pt :: pts) = sealAll p key c' t' pts := by
        simp only [sealAll, heq, if_true]
      rw [hcons, show t.tpSendCounter = t'.tpSendCounter from hsame.symm]
      exact ih c' t'
    · generalize ht' : encryptedMem pt.buf { t with tpPayloadLen := pt.len } ct tag = t' at *
      have hcons : sealAll p key c t (pt :: pts) =
          (pt, tpPacketBytes t') :: sealAll p key c' t' pts := by
        simp [sealAll, heq]
      have hlt := (top_byte_lt_iff _).mp hlim
      have hinc : le t'.tpSendCounter = le t.tpSendCounter + 1 := by
        rw [← ht']
        simp only [encryptedMem, counterInc64, le_inc]
        dsimp only at hlt
        omega
      have hfirst := sealedAs_encryptedMem hi (t := { t with tpPayloadLen := pt.len }) rfl henc
      rw [ht'] at hfirst
      obtain ⟨hbound, hrest⟩ := ih c' t'
      rw [hinc] at hbound hrest
      rw [hcons]
      refine ⟨Or.inr ?_, ?_⟩
      · rw [List.length_cons]
        rcases hbound with hnil | hbound
        · rw [hnil]
          exact hlt
        · omega
      · intro k h
        cases k with
        | zero => exact hfirst
        | succ k =>
          have hk : k < (sealAll p key c' t' pts).length := by simpa using h
          have hget := hrest k hk
          rw [Nat.add_assoc, Nat.add_comm 1 k] at hget
          exact hget

/-! ## Delivery -/

/-- The results of `decrypt_transport` on a sequence of packets. -/
def Responder.deliver (r : Responder L) : List (List UInt8) → List (Except PyError (List UInt8))
  | [] => []
  | packet :: packets =>
      (r.decryptTransport packet).2 :: (r.decryptTransport packet).1.deliver packets

/-- A responder whose session receives under `key` and expects the packet of number `n`. -/
structure Responder.Receives (view : L.Connection → ConnectionView) (r : Responder L)
    (key : Bytes 32) (n : Nat) : Prop where
  complete : r.handshakeComplete = true
  noise : ∃ noise sendKey m, r.noise = some noise ∧ view noise = .transport key n sendKey m

/-- One packet: it is opened under the expected number, and only then is the number advanced. -/
theorem Responder.decryptTransport_cases (hL : L.Implements p view) {r : Responder L}
    {key : Bytes 32} {n : Nat} (h : r.Receives view key n) (hn : n < 2 ^ 64 - 1)
    {packet : List UInt8} (htype : packet.getD 0 0 = msgTypeTransport)
    (hlong : t4HdrLen + 16 ≤ packet.length) (hshort : packet.length < 2 ^ 16) :
    (transportOpen p key n (packet.drop t4HdrLen) = none ∧
      (r.decryptTransport packet).2 = .error .noiseInvalidMessage) ∨
    ∃ plaintext, transportOpen p key n (packet.drop t4HdrLen) = some plaintext ∧
      (r.decryptTransport packet).2 = .ok plaintext ∧
      (r.decryptTransport packet).1.Receives view key (n + 1) := by
  obtain ⟨hcomplete, noise, sendKey, m, hnoise, hview⟩ := h
  have hdec := hL.decrypt noise key n sendKey m (packet.drop t4HdrLen) hview hn
    (by rw [List.length_drop]; omega)
  have heq : r.decryptTransport packet =
      ({ r with noise := some (L.decrypt noise (packet.drop t4HdrLen)).1 },
        (L.decrypt noise (packet.drop t4HdrLen)).2) := by
    simp only [decryptTransport, hcomplete, hnoise]
    rw [if_neg (by omega), if_neg (not_not.mpr htype)]
  rw [heq]
  cases hopen : transportOpen p key n (packet.drop t4HdrLen) with
  | none =>
    rw [hopen] at hdec
    left
    rw [hdec]
    exact ⟨rfl, rfl⟩
  | some plaintext =>
    rw [hopen] at hdec
    obtain ⟨c', hc', hview'⟩ := hdec
    right
    rw [hc']
    exact ⟨plaintext, rfl, rfl, hcomplete, c', sendKey, m, rfl, hview'⟩

/-- Packets are opened one number after the other. -/
theorem Responder.deliver_iff (hL : L.Implements p view) {key : Bytes 32}
    (packets : List (List UInt8 × List UInt8)) {r : Responder L} {n : Nat}
    (h : r.Receives view key n) (hn : n + packets.length ≤ 2 ^ 64 - 1)
    (hformed : ∀ packet ∈ packets, packet.1.getD 0 0 = msgTypeTransport ∧
      t4HdrLen + 16 ≤ packet.1.length ∧ packet.1.length < 2 ^ 16) :
    r.deliver (packets.map Prod.fst) = packets.map (fun packet => .ok packet.2) ↔
      ∀ j (hj : j < packets.length),
        transportOpen p key (n + j) (packets[j].1.drop t4HdrLen) = some packets[j].2 := by
  induction packets generalizing r n with
  | nil => exact ⟨fun _ j hj => absurd hj (Nat.not_lt_zero j), fun _ => rfl⟩
  | cons packet packets ih =>
    rw [List.length_cons] at hn
    obtain ⟨htype, hlong, hshort⟩ := hformed packet List.mem_cons_self
    rw [List.map_cons, List.map_cons, deliver, List.cons.injEq]
    rcases decryptTransport_cases hL h (by omega) htype hlong hshort with
      ⟨hnone, herr⟩ | ⟨plaintext, hsome, hok, hnext⟩
    · constructor
      · rintro ⟨hhead, -⟩
        rw [herr] at hhead
        cases hhead
      · intro hall
        have hzero := hall 0 (Nat.succ_pos _)
        rw [Nat.add_zero, List.getElem_cons_zero, hnone] at hzero
        cases hzero
    · rw [hok, Except.ok.injEq, ih hnext (by omega) fun q hq => hformed q (List.mem_cons_of_mem _ hq)]
      constructor
      · rintro ⟨rfl, htail⟩ j hj
        cases j with
        | zero => exact hsome
        | succ j =>
          have hget := htail j (by simpa using hj)
          rw [Nat.add_assoc, Nat.add_comm 1 j] at hget
          exact hget
      · intro hall
        refine ⟨?_, fun j hj => ?_⟩
        · have hzero := hall 0 (Nat.succ_pos _)
          rw [Nat.add_zero, List.getElem_cons_zero, hsome, Option.some.injEq] at hzero
          exact hzero
        · have hget := hall (j + 1) (by simpa using hj)
          rw [Nat.add_assoc, Nat.add_comm 1 j]
          exact hget

/-- **Which delivery orders decrypt.** Of a session of the C64, some packets arrive, each once, in
the order `order`. Each of them decrypts to its own plaintext exactly when the `j`-th to arrive is
packet `j` of the session, for every `j` — or when a packet happens to open to its plaintext under
a number that is not its own. -/
theorem decryptTransport_order_iff (hL : L.Implements p view) (hi : AeadInverts p)
    {r : Responder L} {key : Bytes 32} (h : r.Receives view key 0) (c : CryptoMem) (t : TpMem)
    (hsRespPacket : Bytes 92) (pts : List Plaintext)
    (order : List (Fin (sealAll p key c (transportInit hsRespPacket t) pts).length))
    (hnodup : order.Nodup) :
    let packets := sealAll p key c (transportInit hsRespPacket t) pts
    r.deliver (order.map fun i => (packets.get i).2) =
        order.map (fun i => .ok (packets.get i).1.bytes) ↔
      ∀ j (hj : j < order.length), (order[j] : Nat) = j ∨
        transportOpen p key j ((packets.get order[j]).2.drop t4HdrLen) =
          some (packets.get order[j]).1.bytes := by
  intro packets
  obtain ⟨hbound, hsealed⟩ := sealAll_get hi key pts c (transportInit hsRespPacket t)
  have hzero : le (transportInit hsRespPacket t).tpSendCounter = 0 := le_zero
  simp only [hzero, Nat.zero_add] at hbound hsealed
  have hcount : order.length ≤ 2 ^ 60 := by
    have hcard := hnodup.length_le_card
    rw [Fintype.card_fin] at hcard
    rcases hbound with hnil | hbound
    · have hnone := congrArg List.length hnil
      rw [List.length_nil] at hnone
      omega
    · exact hcard.trans hbound
  have hiff := Responder.deliver_iff hL
    (order.map fun i => ((packets.get i).2, (packets.get i).1.bytes)) h
    (by rw [List.length_map]; omega) (by
      intro packet hmem
      obtain ⟨i, -, rfl⟩ := List.mem_map.mp hmem
      obtain ⟨htype, hlong, hshort, -⟩ := hsealed i i.isLt
      exact ⟨htype, hlong, hshort⟩)
  rw [List.map_map, List.map_map] at hiff
  refine hiff.trans ?_
  simp only [List.length_map, List.getElem_map, Nat.zero_add]
  refine forall_congr' fun j => forall_congr' fun hj => ?_
  constructor
  · exact Or.inr
  · rintro (hsame | hopen)
    · have hown : ∀ n, (order[j] : Nat) = n →
          transportOpen p key n ((packets.get order[j]).2.drop t4HdrLen) =
            some (packets.get order[j]).1.bytes := by
        rintro n rfl
        exact (hsealed _ (order[j]).isLt).opens
      exact hown j hsame
    · exact hopen

/-! ## A lost packet -/

/-- A plaintext of no bytes. -/
def emptyPlaintext : Plaintext where
  buf := zero _
  len := 0
  fits := by decide

/-- A responder in a session that receives under the zero key. -/
def sampleReceiver : Responder (rfcNoise rfcPrims) :=
  { sampleResponder (zero 32) with
    noise := some (.transport (zero 32) 0 (zero 32) 0)
    handshakeComplete := true }

theorem sampleReceiver_receives : sampleReceiver.Receives id (zero 32) 0 :=
  ⟨rfl, _, _, _, rfl, rfl⟩

/-- The first two packets of a session under the zero key. -/
def samplePackets : List (Plaintext × List UInt8) :=
  sealAll rfcPrims (zero 32) (CryptoMem.start 0) (transportInit (zero 92) TpMem.start)
    [emptyPlaintext, emptyPlaintext]

/-- `rfcPrims` never refuses. -/
theorem sealAll_rfc (key : Bytes 32) (c : CryptoMem) (t : TpMem) (pts : List Plaintext)
    (h : ¬ rejectCounterB7 ≤ byte t.tpSendCounter 7) :
    ∃ c' t' tag,
      sealAll rfcPrims key c t (emptyPlaintext :: pts) =
        (emptyPlaintext, [4, 0, 0, 0] ++ t.tpPeerRecvIdx.toList ++ t.tpSendCounter.toList ++ tag) ::
          sealAll rfcPrims key c' t' pts ∧
      t'.tpSendCounter = counterInc64 t.tpSendCounter ∧
      tag = (ChaChaPoly.tag key (transportBuildNonce t.tpSendCounter) [] (zero 0)).toList := by
  rcases transportEncrypt_cases rfcPrims key emptyPlaintext.buf c { t with tpPayloadLen := 0 } with
    ⟨c', t', rekey, -, -, hlim | hnone⟩ | ⟨ct, tag, c', rekey, heq, -, henc⟩
  · exact absurd hlim h
  · cases hnone
  · have hct : ct = zero 0 := ext_byte fun i hi => absurd hi (Nat.not_lt_zero i)
    have htag : tag = ChaChaPoly.tag key (transportBuildNonce t.tpSendCounter) [] ct := by
      cases henc
      rfl
    have hbytes := tpPacketBytes_encryptedMem emptyPlaintext.buf
      (t := { t with tpPayloadLen := 0 }) (show 0 + 32 ≤ udpRecvBufSize by decide) ct tag
    refine ⟨c', encryptedMem emptyPlaintext.buf { t with tpPayloadLen := 0 } ct tag, tag.toList, ?_,
      rfl, by rw [htag, hct]⟩
    have hcons : sealAll rfcPrims key c t (emptyPlaintext :: pts) =
        (emptyPlaintext, tpPacketBytes (encryptedMem emptyPlaintext.buf
          { t with tpPayloadLen := 0 } ct tag)) ::
          sealAll rfcPrims key c' (encryptedMem emptyPlaintext.buf
            { t with tpPayloadLen := 0 } ct tag) pts := by
      have heq' : transportEncrypt rfcPrims key emptyPlaintext.buf c
          { t with tpPayloadLen := emptyPlaintext.len } =
            (c', encryptedMem emptyPlaintext.buf { t with tpPayloadLen := 0 } ct tag, false,
              rekey) := heq
      simp [sealAll, heq']
    rw [hcons, hbytes, toList_bytes_zero, List.nil_append]

/-- The first packet is lost and the second arrives: it does not decrypt. -/
theorem decryptTransport_lost :
    ¬ sampleReceiver.deliver ((samplePackets.drop 1).map Prod.snd) =
      (samplePackets.drop 1).map (fun packet => .ok packet.1.bytes) := by
  obtain ⟨c₁, t₁, tag₁, h₁, hinc₁, -⟩ := sealAll_rfc (zero 32) (CryptoMem.start 0)
    (transportInit (zero 92) TpMem.start) [emptyPlaintext] (by decide +kernel)
  obtain ⟨c₂, t₂, tag₂, h₂, -, htag₂⟩ := sealAll_rfc (zero 32) c₁ t₁ []
    (by rw [hinc₁]; decide +kernel)
  rw [hinc₁] at h₂ htag₂
  have hpackets : samplePackets.drop 1 =
      [(emptyPlaintext, [4, 0, 0, 0] ++ t₁.tpPeerRecvIdx.toList ++
        (counterInc64 (transportInit (zero 92) TpMem.start).tpSendCounter).toList ++ tag₂)] := by
    rw [samplePackets, h₁, h₂]
    rfl
  generalize hhdr : [4, 0, 0, 0] ++ t₁.tpPeerRecvIdx.toList ++
    (counterInc64 (transportInit (zero 92) TpMem.start).tpSendCounter).toList = hdr at hpackets
  have hlen : hdr.length = 16 := by
    rw [← hhdr]
    simp
  have hfirst : hdr.getD 0 0 = 4 := by
    rw [← hhdr]
    rfl
  have htaglen : tag₂.length = 16 := by
    rw [htag₂]
    simp
  rw [hpackets]
  intro hall
  have hiff := Responder.deliver_iff (rfcNoise_implements rfcPrims)
    [(hdr ++ tag₂, emptyPlaintext.bytes)] sampleReceiver_receives (by simp) (by
      intro packet hmem
      rw [List.mem_singleton] at hmem
      subst hmem
      refine ⟨?_, by simp [hlen, htaglen, t4HdrLen], by simp [hlen, htaglen]⟩
      rw [List.getD_eq_getElem?_getD, List.getElem?_append_left (by omega),
        ← List.getD_eq_getElem?_getD]
      exact hfirst)
  have hopen := hiff.mp hall 0 (by simp)
  have htag : tag₂ = (zero 0).toList ++
      (ChaChaPoly.tag (zero 32) (transportBuildNonce
        (counterInc64 (transportInit (zero 92) TpMem.start).tpSendCounter)) [] (zero 0)).toList := by
    rw [htag₂, toList_bytes_zero, List.nil_append]
  have hdrop : (hdr ++ tag₂).drop t4HdrLen = tag₂ := List.drop_left' hlen
  rw [List.getElem_cons_zero, hdrop, htag, transportOpen_eq] at hopen
  have hno : ¬ (rfcPrims.aeadDecrypt (zero 32) (transportNonce (0 + 0)) [] (zero 0)
      (ChaChaPoly.tag (zero 32) (transportBuildNonce
        (counterInc64 (transportInit (zero 92) TpMem.start).tpSendCounter)) [] (zero 0))).1 =
      true := by
    decide +kernel
  rw [if_neg hno] at hopen
  cases hopen

/-- Both packets of the session, in order. -/
theorem decryptTransport_order_sample :
    let order : List (Fin samplePackets.length) := [⟨0, by decide +kernel⟩, ⟨1, by decide +kernel⟩]
    sampleReceiver.deliver (order.map fun i => (samplePackets.get i).2) =
        order.map (fun i => .ok (samplePackets.get i).1.bytes) ↔
      ∀ j (hj : j < order.length), (order[j] : Nat) = j ∨
        transportOpen rfcPrims (zero 32) j ((samplePackets.get order[j]).2.drop t4HdrLen) =
          some (samplePackets.get order[j]).1.bytes :=
  decryptTransport_order_iff (rfcNoise_implements rfcPrims) rfcPrims_aeadInverts
    sampleReceiver_receives (CryptoMem.start 0) TpMem.start (zero 92)
    [emptyPlaintext, emptyPlaintext] _
    (List.nodup_cons.mpr ⟨fun h => absurd (congrArg Fin.val (List.mem_singleton.mp h)) Nat.zero_ne_one,
      List.nodup_singleton _⟩)

end C64WireGuard
