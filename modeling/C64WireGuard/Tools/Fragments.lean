import C64WireGuard.Tools.Reassembly

/-!
# `ip65_hw_checks.py`: fragmented traffic

A sender splits datagrams into frames, and a capture holds the frames of many datagrams in any order,
with one fragment of some datagrams lost. `reassemble` reports every datagram once, in the order of
the first frames, and those that are not whole as not complete (`reassemble_sent`).
-/

namespace C64WireGuard.Tools

open Grouping Pieces

/-! ## What was sent -/

/-- What the fragments of a datagram share. -/
structure Header where
  src : List UInt8
  dst : List UInt8
  proto : Nat
  id : Nat
deriving DecidableEq

/-- An IPv4 frame with this header, at an offset. -/
structure Frame.Carries (f : Frame) (h : Header) (off : Nat) (more : Bool) : Prop where
  ethertype : f.ethertype = ethertypeIpv4
  ipSrc : f.ipSrc = some h.src
  ipDst : f.ipDst = some h.dst
  ipProto : f.ipProto = some h.proto
  ipId : f.ipId = some h.id
  fragOff : f.fragOff = some off
  moreFrags : f.moreFrags = more

/-- The frames of one datagram: each at the end of the one before it, all but the last with bytes and
with the more-fragments flag. A datagram that is not fragmented is one frame. -/
def Fragments (h : Header) : Nat → List Frame → Prop
  | _, [] => False
  | off, [f] => f.Carries h off false
  | off, f :: g :: fs =>
    f.Carries h off true ∧ f.ipPayload ≠ [] ∧ Fragments h (off + f.ipPayload.length) (g :: fs)

/-- A datagram as it was sent, and which of its fragments the capture does not have. -/
structure Sent extends Header where
  payload : List UInt8
  frames : List Frame
  lost : Option Nat
  split : Fragments toHeader 0 frames
  joined : frames.flatMap Frame.ipPayload = payload
  lost_lt : ∀ k, lost = some k → k < frames.length ∧ 2 ≤ frames.length

/-- The frames of a datagram in the capture. -/
def Sent.captured (s : Sent) : List Frame :=
  match s.lost with
  | none => s.frames
  | some k => s.frames.eraseIdx k

/-- What `reassemble` is to say about a datagram. -/
structure Reported (s : Sent) (d : Datagram) : Prop where
  frames : d.frameIndices.Perm (s.captured.map Frame.index)
  header : d.ipSrc = s.src ∧ d.ipDst = s.dst ∧ d.ipProto = some s.proto
  complete : s.lost = none → d.complete = true ∧ d.data = s.payload ∧
    ∃ first ∈ s.frames.head?, d.sport = first.sport ∧ d.dport = first.dport
  incomplete : s.lost ≠ none → d.complete = false

/-! ## The frames of one datagram -/

theorem Fragments.ne_nil {h : Header} {off : Nat} {fs : List Frame} (hfs : Fragments h off fs) :
    fs ≠ [] := by
  rintro rfl
  exact hfs

/-- Every frame has the header, at some offset from `off` on. -/
theorem Fragments.carries {h : Header} {off : Nat} {fs : List Frame} (hfs : Fragments h off fs)
    {f : Frame} (hf : f ∈ fs) : ∃ o more, f.Carries h o more ∧ off ≤ o := by
  induction fs generalizing off with
  | nil => exact absurd hf List.not_mem_nil
  | cons a fs ih =>
    cases fs with
    | nil =>
      obtain rfl := List.mem_singleton.mp hf
      exact ⟨off, false, hfs, Nat.le_refl _⟩
    | cons b fs =>
      obtain ⟨ha, -, hrest⟩ := hfs
      rcases List.mem_cons.mp hf with rfl | hf
      · exact ⟨off, true, ha, Nat.le_refl _⟩
      · obtain ⟨o, more, hcarries, hle⟩ := ih hrest hf
        exact ⟨o, more, hcarries, by omega⟩

/-- Behind the first frame the offsets are not 0. -/
theorem Fragments.behind {h : Header} {off : Nat} {a b : Frame} {fs : List Frame}
    (hfs : Fragments h off (a :: b :: fs)) {f : Frame} (hf : f ∈ b :: fs) :
    ∃ o, f.fragOff = some o ∧ o ≠ 0 := by
  obtain ⟨-, hpos, hrest⟩ := hfs
  have hlen := List.length_pos_iff.mpr hpos
  obtain ⟨o, more, hcarries, hle⟩ := hrest.carries hf
  exact ⟨o, hcarries.fragOff, by omega⟩

/-- Offset 0 is that of the first frame, and of no other. -/
theorem Fragments.first {h : Header} {fs : List Frame} (hfs : Fragments h 0 fs) :
    ∃ first ∈ fs.head?, first ∈ fs ∧ first.fragOff = some 0 ∧
      ∀ f ∈ fs, f.fragOff = some 0 → f = first := by
  match fs, hfs with
  | [a], hfs =>
    exact ⟨a, rfl, List.mem_singleton.mpr rfl, hfs.fragOff,
      fun f hf _ => List.mem_singleton.mp hf⟩
  | a :: b :: fs, hfs =>
    refine ⟨a, rfl, List.mem_cons_self, hfs.1.fragOff, fun f hf hzero => ?_⟩
    rcases List.mem_cons.mp hf with rfl | hf
    · rfl
    · obtain ⟨o, ho, hpos⟩ := hfs.behind hf
      rw [ho] at hzero
      exact absurd (Option.some.inj hzero) hpos

theorem Fragments.chain {h : Header} {off : Nat} {fs : List Frame} (hfs : Fragments h off fs) :
    Chain off (fs.map Frame.piece) := by
  induction fs generalizing off with
  | nil => exact trivial
  | cons a fs ih =>
    cases fs with
    | nil => exact ⟨by rw [Frame.piece, hfs.fragOff]; rfl, trivial⟩
    | cons b fs =>
      obtain ⟨ha, -, hrest⟩ := hfs
      exact ⟨by rw [Frame.piece, ha.fragOff]; rfl, ih hrest⟩

/-- The offsets grow. -/
theorem Fragments.pairwise {h : Header} {off : Nat} {fs : List Frame} (hfs : Fragments h off fs) :
    (fs.map Frame.piece).Pairwise fun p q => p.1 < q.1 := by
  induction fs generalizing off with
  | nil => exact List.Pairwise.nil
  | cons a fs ih =>
    cases fs with
    | nil => exact List.pairwise_singleton _ _
    | cons b fs =>
      obtain ⟨ha, hpos, hrest⟩ := hfs
      have hlen := List.length_pos_iff.mpr hpos
      refine List.Pairwise.cons ?_ (ih hrest)
      intro q hq
      obtain ⟨f, hf, rfl⟩ := List.mem_map.mp hq
      obtain ⟨o, _, hcarries, hle⟩ := hrest.carries hf
      simp only [Frame.piece, ha.fragOff, hcarries.fragOff, Option.getD_some]
      omega

/-- Only the last frame may be empty. -/
theorem Fragments.payload_ne_nil {h : Header} {off : Nat} {fs : List Frame}
    (hfs : Fragments h off fs) {k : Nat} (hk : k + 1 < fs.length) :
    ∀ f, fs[k]? = some f → f.ipPayload ≠ [] := by
  induction fs generalizing off k with
  | nil => exact absurd hk (Nat.not_lt_zero _)
  | cons a fs ih =>
    cases fs with
    | nil => exact absurd hk (by simp)
    | cons b fs =>
      obtain ⟨-, hpos, hrest⟩ := hfs
      cases k with
      | zero =>
        intro f hf
        obtain rfl := Option.some.inj hf
        exact hpos
      | succ k => exact ih hrest (Nat.lt_of_succ_lt_succ hk)

theorem Fragments.last_moreFrags {h : Header} {off : Nat} {fs : List Frame}
    (hfs : Fragments h off fs) : (fs.any fun f => !f.moreFrags) = true := by
  induction fs generalizing off with
  | nil => exact hfs.elim
  | cons a fs ih =>
    cases fs with
    | nil => simp [hfs.moreFrags]
    | cons b fs => rw [List.any_cons, ih hfs.2.2, Bool.or_true]

/-- The frames before the last all have the flag. -/
theorem Fragments.dropLast_moreFrags {h : Header} {off : Nat} {fs : List Frame}
    (hfs : Fragments h off fs) : ((fs.eraseIdx (fs.length - 1)).any fun f => !f.moreFrags) = false := by
  induction fs generalizing off with
  | nil => exact hfs.elim
  | cons a fs ih =>
    cases fs with
    | nil => rfl
    | cons b fs =>
      have hidx : (a :: b :: fs).length - 1 = (b :: fs).length - 1 + 1 := by simp
      rw [hidx, List.eraseIdx_cons_succ, List.any_cons, ih hfs.2.2, hfs.1.moreFrags]
      rfl

/-! ## One datagram -/

theorem Sent.captured_sublist (s : Sent) : s.captured.Sublist s.frames := by
  unfold Sent.captured
  cases s.lost with
  | none => exact List.Sublist.refl _
  | some k => exact List.eraseIdx_sublist _ _

theorem Sent.captured_ne_nil (s : Sent) : s.captured ≠ [] := by
  unfold Sent.captured
  cases hlost : s.lost with
  | none => exact s.split.ne_nil
  | some k =>
    obtain ⟨hk, hlen⟩ := s.lost_lt k hlost
    refine List.ne_nil_of_length_pos ?_
    rw [List.length_eraseIdx_of_lt hk]
    omega

/-- The datagram is fragmented. -/
def Sent.fragmented (s : Sent) : Prop := 2 ≤ s.frames.length

/-- The key `reassemble` has for a datagram. -/
def Sent.key (s : Sent) : Key :=
  match s.frames with
  | [f] => .whole f.index
  | _ => .fragments s.src s.dst (some s.proto) (some s.id)

theorem Sent.key_of_mem (s : Sent) {f : Frame} (hf : f ∈ s.frames) : f.key = s.key := by
  obtain ⟨o, more, hcarries, -⟩ := s.split.carries hf
  have hparts : Key.fragments (f.ipSrc.getD []) (f.ipDst.getD []) f.ipProto f.ipId =
      .fragments s.src s.dst (some s.proto) (some s.id) := by
    rw [hcarries.ipSrc, hcarries.ipDst, hcarries.ipProto, hcarries.ipId]
    rfl
  have hsplit := s.split
  rw [Sent.key, Frame.key, hparts]
  match hframes : s.frames with
  | [] => exact (s.split.ne_nil hframes).elim
  | [a] =>
    rw [hframes] at hf hsplit
    obtain rfl := List.mem_singleton.mp hf
    have hwhole : f.isFragmented = false := by
      rw [Frame.isFragmented, hsplit.moreFrags, hsplit.fragOff]
      rfl
    rw [hwhole]
    rfl
  | a :: b :: fs =>
    rw [hframes] at hf hsplit
    have hpart : f.isFragmented = true := by
      rw [Frame.isFragmented]
      rcases List.mem_cons.mp hf with rfl | hf
      · rw [hsplit.1.moreFrags, Bool.true_or]
      · obtain ⟨o, ho, hpos⟩ := hsplit.behind hf
        rw [ho, Option.getD_some, decide_eq_true hpos, Bool.or_true]
    rw [hpart]
    rfl

/-- The pieces come out in their order, whatever order the frames came in. -/
theorem Sent.sorted_pieces (s : Sent) {fs : List Frame} (hfs : fs.Perm s.captured) :
    sorted (fs.map Frame.piece) = s.captured.map Frame.piece :=
  sorted_eq (hfs.map _) (s.split.pairwise.sublist (s.captured_sublist.map _))

/-- **One datagram**: what its frames, in any order, are put together to. -/
theorem Sent.reported (s : Sent) {fs : List Frame} (hfs : fs.Perm s.captured) {g : Group}
    (hg : gather Group.new Group.add fs = some g) (key : Key) : Reported s (g.datagram key) := by
  obtain ⟨hpieces, hidx, hlast, ⟨f, hf, hsrc, hdst, hproto⟩, hports⟩ := gather_add hg
  have hmem : ∀ {x}, x ∈ fs → x ∈ s.frames := fun hx => s.captured_sublist.mem (hfs.mem_iff.mp hx)
  obtain ⟨o, more, hcarries, -⟩ := s.split.carries (hmem hf)
  have hany : (fs.any fun f => !f.moreFrags) = s.captured.any fun f => !f.moreFrags :=
    hfs.any_eq
  have hchain : Chain ([] : List UInt8).length (s.frames.map Frame.piece) := s.split.chain
  have hbuilt : (sorted g.pieces).foldl (place 0) ([], g.lastSeen) =
      (s.captured.map Frame.piece).foldl (place 0) ([], s.captured.any fun f => !f.moreFrags) := by
    rw [hpieces, s.sorted_pieces hfs, hlast, hany]
  refine ⟨?_, ⟨?_, ?_, ?_⟩, fun hnone => ?_, fun hlost => ?_⟩
  · change g.idx.Perm _
    rw [hidx]
    exact hfs.map _
  · change g.ipSrc = _
    rw [hsrc, hcarries.ipSrc]
    rfl
  · change g.ipDst = _
    rw [hdst, hcarries.ipDst]
    rfl
  · change g.proto = _
    rw [hproto, hcarries.ipProto]
  · have hcaptured : s.captured = s.frames := by rw [Sent.captured, hnone]
    rw [hcaptured, s.split.last_moreFrags, foldl_place_chain 0 hchain] at hbuilt
    refine ⟨congrArg Prod.snd hbuilt, ?_, ?_⟩
    · rw [← s.joined]
      refine (congrArg Prod.fst hbuilt).trans ?_
      rw [List.nil_append, List.flatMap_map]
      rfl
    · obtain ⟨first, hhead, hfirst, hzero, honly⟩ := s.split.first
      have hin : first ∈ fs := by rwa [hfs.mem_iff, hcaptured]
      exact ⟨first, hhead, hports first hin hzero fun f hf => honly f (hmem hf)⟩
  · obtain ⟨k, hk⟩ := Option.ne_none_iff_exists'.mp hlost
    obtain ⟨hlt, hlen⟩ := s.lost_lt k hk
    have hcaptured : s.captured = s.frames.eraseIdx k := by rw [Sent.captured, hk]
    rw [hcaptured] at hbuilt
    refine (congrArg Prod.snd hbuilt).trans ?_
    by_cases hend : k + 1 < s.frames.length
    · rw [← List.eraseIdx_map]
      refine foldl_place_eraseIdx 0 hchain (by simpa using hend) ?_ _
      intro p hp
      rw [List.getElem?_map] at hp
      obtain ⟨a, ha, rfl⟩ := Option.map_eq_some_iff.mp hp
      exact s.split.payload_ne_nil hend a ha
    · have hk : k = s.frames.length - 1 := by omega
      rw [hk, s.split.dropLast_moreFrags]
      exact foldl_place_false 0 _ _

/-! ## A capture -/

/-- The first frame of `s` comes before the first frame of `t`. -/
def FirstSeen (capture : List Frame) (s t : Sent) : Prop :=
  capture.findIdx (fun f => f ∈ s.captured) < capture.findIdx (fun f => f ∈ t.captured)

/-- Two datagrams of a capture have different keys. -/
theorem Sent.key_ne {s t : Sent} (hheader : s.fragmented → t.fragmented → s.toHeader ≠ t.toHeader)
    (hindex : ∀ f ∈ s.captured, ∀ g ∈ t.captured, f.index ≠ g.index) : s.key ≠ t.key := by
  have hwhole : ∀ (u : Sent) (a : Frame), u.frames = [a] → u.captured = [a] := by
    intro u a hframes
    have hsub := u.captured_sublist
    rw [hframes, List.sublist_singleton] at hsub
    exact hsub.resolve_left u.captured_ne_nil
  unfold Sent.key Sent.fragmented at *
  match hs : s.frames, ht : t.frames with
  | [], _ => exact (s.split.ne_nil hs).elim
  | _, [] => exact (t.split.ne_nil ht).elim
  | [a], [b] =>
    intro heq
    refine hindex a ?_ b ?_ (Key.whole.inj heq)
    · rw [hwhole s a hs]
      exact List.mem_singleton.mpr rfl
    · rw [hwhole t b ht]
      exact List.mem_singleton.mpr rfl
  | [a], b :: b' :: fs => exact fun heq => nomatch heq
  | a :: a' :: fs, [b] => exact fun heq => nomatch heq
  | a :: a' :: fs, b :: b' :: gs =>
    intro heq
    refine hheader (by simp [hs]) (by simp [ht]) ?_
    injection heq with hsrc hdst hproto hid
    cases hsh : s.toHeader
    cases hth : t.toHeader
    simp_all

theorem erase_filter_key (frames : List Frame) (f : Frame) :
    (frames.erase f).filter (fun g => g.key ≠ f.key) = frames.filter fun g => g.key ≠ f.key := by
  induction frames with
  | nil => rfl
  | cons a frames ih =>
    by_cases h : a = f
    · subst h
      rw [List.erase_cons_head, List.filter_cons_of_neg (by simp)]
    · rw [List.erase_cons_tail (by simpa using h), List.filter_cons, ih, List.filter_cons]

/-- **Reassembly.** Datagrams are sent whole or in fragments, those in fragments with different
headers, and some lose a fragment; the capture has all other frames, in any order, under different
indices. `reassemble` then reports every datagram once, in the order of the first frames: its payload
and the ports of its first frame if it is whole, and otherwise that it is not complete. A frame that
is lost does not change what is reported of the other datagrams. -/
theorem reassemble_sent (sent : List Sent) (capture : List Frame)
    (hheaders : sent.Pairwise fun s t => s.fragmented → t.fragmented → s.toHeader ≠ t.toHeader)
    (hindices : (capture.map Frame.index).Nodup)
    (hcapture : capture.Perm (sent.flatMap Sent.captured)) :
    (∃ order : List Sent, order.Perm sent ∧ order.Pairwise (FirstSeen capture) ∧
      List.Forall₂ Reported order (reassemble capture)) ∧
    ∀ f ∈ capture, (reassemble (capture.erase f)).filter (fun d => d.key ≠ f.key) =
      (reassemble capture).filter (fun d => d.key ≠ f.key) := by
  have hkeyOf : ∀ s ∈ sent, ∀ f ∈ s.captured, f.key = s.key :=
    fun s _ f hf => s.key_of_mem (s.captured_sublist.mem hf)
  have hkeys : (sent.map Sent.key).Nodup := by
    have hnodup := (hcapture.map Frame.index).nodup_iff.mp hindices
    rw [List.map_flatMap, List.nodup_flatMap] at hnodup
    refine List.pairwise_map.mpr (List.Pairwise.imp₂ ?_ hheaders hnodup.2)
    intro s t hheader hdisjoint
    refine Sent.key_ne hheader fun f hf g hg heq => ?_
    exact hdisjoint (List.mem_map_of_mem hf) (heq ▸ List.mem_map_of_mem hg)
  have hip : capture.filter Frame.isIp = capture := by
    rw [List.filter_eq_self]
    intro f hf
    obtain ⟨s, -, hfs⟩ := List.mem_flatMap.mp (hcapture.mem_iff.mp hf)
    obtain ⟨o, more, hcarries, -⟩ := s.split.carries (s.captured_sublist.mem hfs)
    rw [Frame.isIp, hcarries.ethertype, hcarries.ipProto]
    rfl
  have hclass : ∀ s ∈ sent, (capture.filter fun f => f.key = s.key).Perm s.captured := by
    intro s hs
    have hfilter := filter_flatMap_key hkeyOf hkeys hs
    rw [← hfilter]
    exact hcapture.filter _
  have hfirsts : (capture.map Frame.key).eraseDups.Perm (sent.map Sent.key) := by
    refine (List.perm_ext_iff_of_nodup (nodup_eraseDups _) hkeys).mpr fun k => ?_
    rw [List.mem_eraseDups]
    constructor
    · intro hk
      obtain ⟨f, hf, rfl⟩ := List.mem_map.mp hk
      obtain ⟨s, hs, hfs⟩ := List.mem_flatMap.mp (hcapture.mem_iff.mp hf)
      exact List.mem_map.mpr ⟨s, hs, (hkeyOf s hs f hfs).symm⟩
    · intro hk
      obtain ⟨s, hs, rfl⟩ := List.mem_map.mp hk
      obtain ⟨f, hf⟩ := List.exists_mem_of_ne_nil _ s.captured_ne_nil
      rw [← hkeyOf s hs f hf]
      exact List.mem_map_of_mem (hcapture.mem_iff.mpr (List.mem_flatMap.mpr ⟨s, hs, hf⟩))
  obtain ⟨order, horder, horderKeys⟩ := exists_perm_map_eq Sent.key hfirsts
  refine ⟨⟨order, horder, ?_, ?_⟩, fun f _ => ?_⟩
  · have hpairs := pairwise_eraseDups (capture.map Frame.key)
    rw [← horderKeys, List.pairwise_map] at hpairs
    refine List.Pairwise.imp_of_mem (fun hs ht hlt => ?_) hpairs
    have hidx : ∀ u ∈ sent, (capture.map Frame.key).idxOf u.key =
        capture.findIdx fun f => f ∈ u.captured := by
      intro u hu
      rw [List.idxOf, List.findIdx_map]
      refine findIdx_congr fun f hf => ?_
      rw [Function.comp_apply, Bool.eq_iff_iff, beq_iff_eq, decide_eq_true_eq,
        ← (hclass u hu).mem_iff, List.mem_filter, decide_eq_true_eq]
      exact ⟨fun heq => ⟨hf, heq⟩, fun h => h.2⟩
    rw [hidx _ (horder.mem_iff.mp hs), hidx _ (horder.mem_iff.mp ht)] at hlt
    exact hlt
  · have hsame : List.Forall₂ (fun s d => s.key = d.key) order (reassemble capture) := by
      rw [← List.forall₂_map_left_iff (f := Sent.key) (R := fun k d => k = Datagram.key d),
        ← List.forall₂_map_right_iff (f := Datagram.key) (R := fun k l => k = l), horderKeys,
        keys_reassemble, hip]
      exact List.forall₂_same.mpr fun _ _ => rfl
    have hmem := (List.forall₂_and_left (p := (· ∈ order)) _ _).mpr ⟨fun _ h => h, hsame⟩
    have hmem := (List.forall₂_and_left (p := (· ∈ reassemble capture)) _ _).mpr
      ⟨fun _ h => h, hmem.flip⟩
    refine hmem.flip.imp fun s d h => ?_
    obtain ⟨hd, hs, hkey⟩ := h
    obtain ⟨g, hg, hdg⟩ := gather_of_mem_reassemble hd
    rw [hip, ← hkey] at hg
    rw [hdg]
    exact s.reported (hclass s (horder.mem_iff.mp hs)) hg _
  · rw [filter_reassemble (fun k => k ≠ f.key), filter_reassemble (fun k => k ≠ f.key),
      erase_filter_key]

/-- A UDP frame from port 0x1111 to port 0x2222 of another station, all under one id. -/
def udpFrame (index off : Nat) (more : Bool) (payload : List UInt8) : Frame :=
  { index := index, ethSrc := [2, 0, 0, 0, 0, 1], ethDst := [2, 0, 0, 0, 0, 2],
    ethertype := ethertypeIpv4, raw := [], ipSrc := some [10, 0, 0, 1], ipDst := some [10, 0, 0, 2],
    ipProto := some ipprotoUdp, ipId := some 0x1234, fragOff := some off, moreFrags := more,
    ipPayload := payload, sport := if off = 0 then some 0x1111 else none,
    dport := if off = 0 then some 0x2222 else none }

/-- A datagram in two frames. -/
def twoFrames : Sent where
  src := [10, 0, 0, 1]
  dst := [10, 0, 0, 2]
  proto := ipprotoUdp
  id := 0x1234
  payload := [0x11, 0x11, 0x22, 0x22, 0, 9, 0, 0, 4]
  frames := [udpFrame 8 0 true [0x11, 0x11, 0x22, 0x22, 0, 9, 0, 0], udpFrame 3 8 false [4]]
  lost := none
  split := ⟨⟨rfl, rfl, rfl, rfl, rfl, rfl, rfl⟩, List.cons_ne_nil _ _,
    ⟨rfl, rfl, rfl, rfl, rfl, rfl, rfl⟩⟩
  joined := rfl
  lost_lt := fun _ h => nomatch h

/-- A datagram in one frame, under the same id. -/
def oneFrame : Sent where
  src := [10, 0, 0, 1]
  dst := [10, 0, 0, 2]
  proto := ipprotoUdp
  id := 0x1234
  payload := [0x11, 0x11, 0x22, 0x22, 0, 8, 0, 0]
  frames := [udpFrame 5 0 false [0x11, 0x11, 0x22, 0x22, 0, 8, 0, 0]]
  lost := none
  split := ⟨rfl, rfl, rfl, rfl, rfl, rfl, rfl⟩
  joined := rfl
  lost_lt := fun _ h => nomatch h

/-- The last fragment first, then another datagram, then the first fragment. -/
theorem reassemble_sent_interleaved :
    let capture := [udpFrame 3 8 false [4], udpFrame 5 0 false [0x11, 0x11, 0x22, 0x22, 0, 8, 0, 0],
      udpFrame 8 0 true [0x11, 0x11, 0x22, 0x22, 0, 9, 0, 0]]
    ∃ order : List Sent, order.Perm [twoFrames, oneFrame] ∧ order.Pairwise (FirstSeen capture) ∧
      List.Forall₂ Reported order (reassemble capture) := by
  refine (reassemble_sent [twoFrames, oneFrame] _ ?_ ?_ ?_).1
  · refine List.pairwise_pair.mpr fun _ hone => ?_
    exact absurd hone (by unfold Sent.fragmented; decide)
  · decide
  · exact List.perm_append_singleton (udpFrame 8 0 true [0x11, 0x11, 0x22, 0x22, 0, 9, 0, 0]) [_, _]

end C64WireGuard.Tools
