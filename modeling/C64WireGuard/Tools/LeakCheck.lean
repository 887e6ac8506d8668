import C64WireGuard.Tools.Reassembly
import C64WireGuard.Tools.WireSearch
import Mathlib.Algebra.Order.BigOperators.Group.List

/-!
# `ip65_hw_checks.py`: the wire leak check

`find_plaintext` searches the reassembled datagrams of a capture, the padding of IPv4 frames and the
other frames, and `check_plaintext_absent` gives a verdict. What a frame carries reaches a datagram
unless another frame of the same datagram has other bytes at the same offset, and padding is searched
unless the frame has an 802.1Q tag; whatever hides there is missed (`checkPlaintextAbsent_iff`).
-/

namespace C64WireGuard.Tools.HwChecks

open Search Grouping Pieces

/-! ## `find_plaintext` -/

/-- `_fmt_mac`. -/
def fmtMac (mac : List UInt8) : String :=
  ":".intercalate (mac.map fun b =>
    String.ofList [(b.toNat / 16).digitChar, (b.toNat % 16).digitChar])

/-- Where a finding is. -/
inductive Place
  | datagram
  | frame
deriving DecidableEq

/-- `Finding`. -/
structure Finding where
  form : Form
  place : Place
  datagram : Int
  frames : List Nat
  offset : Int
  length : Nat
  ethSrc : String
  label : String

/-- What is found of one needle in one datagram: every full appearance, or else a long part. -/
def datagramFindings (partialMin : Int) (d : Datagram) (di : Nat) (needle : String × List UInt8) :
    List Finding :=
  let src := match d.ethSrcs with
    | [] => "??"
    | mac :: _ => fmtMac mac
  if needle.2 = [] then []
  else if searchForms d.data needle.2 ≠ [] then
    (searchForms d.data needle.2).map fun hit =>
      { form := hit.1, place := .datagram, datagram := di, frames := d.frameIndices,
        offset := hit.2.1, length := hit.2.2, ethSrc := src, label := needle.1 }
  else
    let run := longestRun d.data needle.2
    if partialMin ≤ run.1 ∧ run.1 < needle.2.length then
      let frag := (needle.2.drop run.2.toNat).take run.1
      [{ form := .partialRun, place := .datagram, datagram := di, frames := d.frameIndices,
         offset := (find frag d.data 0).elim (-1) fun i => (i : Int), length := run.1, ethSrc := src,
         label := needle.1 }]
    else []

/-- What is searched of a frame by itself: the label, the offset and the bytes. -/
def frameHay (f : Frame) : Form × Nat × List UInt8 :=
  let body := f.raw.drop 14
  if f.isIp then
    if body.length < 4 then (.pad, 14, [])
    else (.pad, 14 + word body 2, body.drop (word body 2))
  else (.nonip, 14, body)

/-- What is found of one needle in one frame. -/
def frameFindings (f : Frame) (needle : String × List UInt8) : List Finding :=
  let (form, base, hay) := frameHay f
  if hay = [] ∨ needle.2 = [] then []
  else
    (searchForms hay needle.2).map fun hit =>
      { form := form, place := .frame, datagram := -1, frames := [f.index],
        offset := base + hit.2.1, length := hit.2.2, ethSrc := fmtMac f.ethSrc, label := needle.1 }

/-- `find_plaintext`. -/
def findPlaintext (datagrams : List Datagram) (frames : List Frame)
    (needles : List (String × List UInt8)) (partialMin : Int) : List Finding :=
  (datagrams.zipIdx.flatMap fun d => needles.flatMap (datagramFindings partialMin d.1 d.2)) ++
    frames.flatMap fun f => needles.flatMap (frameFindings f)

/-! ## `check_plaintext_absent` -/

/-- `PARTIAL_RUN_MIN`. -/
def partialRunMin : Int := 8

/-- `Datagram.udp_payload`. -/
def udpPayload (d : Datagram) : List UInt8 :=
  if d.ipProto ≠ some ipprotoUdp ∨ d.data.length < 8 then []
  else
    let ulen := word d.data 4
    if 8 ≤ ulen then (d.data.drop 8).take (ulen - 8) else d.data.drop 8

inductive Status
  | pass
  | fail
  | inconclusive
deriving DecidableEq

/-- What a verdict says, with the numbers it says it with. -/
inductive Reason
  | nothingToSearchFor (labels : List String)
  | emptyCapture
  | noDatagrams (frames : Nat)
  | leak (first : Finding)
  | noMac
  | tooFew (c64Datagrams : Nat) (mac : List UInt8) (need : Int)
  | noType4 (c64Datagrams port : Nat)
  | absent

/-- The evidence that goes with a verdict. -/
structure Evidence where
  c64Datagrams : Nat
  c64Bytes : Nat
  c64Type4Datagrams : Nat
  c64Mac : Option String
  frames : Nat
  datagrams : Nat
  bytesAllSources : Nat
  needles : List (String × Nat)
  findings : List Finding

/-- `Verdict`: it reads as `ok` when it is a pass, and only then. -/
structure Verdict where
  ok : Bool
  reason : Reason
  evidence : Option Evidence
  status : Status
  ok_iff : ok = true ↔ status = .pass

/-- A verdict that is not a pass. -/
def Verdict.no (reason : Reason) (evidence : Option Evidence) (status : Status)
    (h : status ≠ .pass) : Verdict :=
  ⟨false, reason, evidence, status, by simpa using h⟩

/-- The keyword arguments. -/
structure Options where
  c64Mac : Option (List UInt8) := none
  minC64Datagrams : Int := 1
  requireType4Port : Option Nat := none
  partialMin : Int := partialRunMin

/-- The datagrams from the C64. -/
def c64Datagrams (opts : Options) (dgs : List Datagram) : List Datagram :=
  match opts.c64Mac with
  | none => []
  | some mac => dgs.filter fun d => mac ∈ d.ethSrcs

/-- Those of them that are Type-4. -/
def type4Datagrams (opts : Options) (dgs : List Datagram) : List Datagram :=
  (c64Datagrams opts dgs).filter fun d =>
    (opts.requireType4Port = none ∨ d.dport = opts.requireType4Port ∨
      d.sport = opts.requireType4Port) ∧ (udpPayload d).take 1 = [4]

/-- The bytes of some datagrams. -/
def bytesOf (dgs : List Datagram) : Nat := (dgs.map fun d => d.data.length).sum

/-- `check_plaintext_absent`. -/
def checkPlaintextAbsent (frames : List Frame) (needles : List (String × List UInt8))
    (opts : Options) : Verdict :=
  if needles = [] ∨ ¬ needles.any (fun n => n.2 ≠ []) then
    .no (.nothingToSearchFor (needles.map Prod.fst)) none .fail (by decide)
  else if frames = [] then .no .emptyCapture none .inconclusive (by decide)
  else
    let dgs := reassemble frames
    if dgs = [] then .no (.noDatagrams frames.length) none .inconclusive (by decide)
    else
      let c64Dgs := c64Datagrams opts dgs
      let type4 := type4Datagrams opts dgs
      let findings := findPlaintext dgs frames needles opts.partialMin
      let ev : Evidence :=
        { c64Datagrams := c64Dgs.length, c64Bytes := bytesOf c64Dgs,
          c64Type4Datagrams := type4.length, c64Mac := opts.c64Mac.map fmtMac,
          frames := frames.length, datagrams := dgs.length, bytesAllSources := bytesOf dgs,
          needles := needles.map fun n => (n.1, n.2.length), findings := findings }
      match findings, opts.c64Mac with
      | first :: _, _ => .no (.leak first) (some ev) .fail (by decide)
      | [], none => .no .noMac (some ev) .inconclusive (by decide)
      | [], some mac =>
        if c64Dgs.length < opts.minC64Datagrams then
          .no (.tooFew c64Dgs.length mac opts.minC64Datagrams) (some ev) .inconclusive (by decide)
        else
          match opts.requireType4Port, type4 with
          | some port, [] => .no (.noType4 c64Dgs.length port) (some ev) .inconclusive (by decide)
          | _, _ => ⟨true, .absent, some ev, .pass, by decide⟩

/-! ## What is searched -/

/-- A needle, or one of its other forms, is a part of these bytes. -/
def Leaks (needles : List (String × List UInt8)) (hay : List UInt8) : Prop :=
  ∃ n ∈ needles, n.2 ≠ [] ∧
    ∃ pat ∈ [n.2, petsciiForm n.2, petsciiShiftedForm n.2, n.2.reverse], pat <:+: hay

theorem leaks_iff {needles : List (String × List UInt8)} {hay : List UInt8} :
    Leaks needles hay ↔ ∃ n ∈ needles, n.2 ≠ [] ∧ searchForms hay n.2 ≠ [] := by
  refine exists_congr fun n => and_congr_right fun _ => and_congr_right fun _ => ?_
  rw [Ne, searchForms_eq_nil_iff]
  constructor
  · rintro ⟨pat, hpat, hocc⟩ hnone
    obtain ⟨p, hp, rfl⟩ := List.mem_map.mp (show pat ∈ (searchPatterns n.2).map Prod.snd from hpat)
    exact hnone p hp hocc
  · intro h
    by_contra hno
    exact h fun p hp hocc => hno ⟨p.2, List.mem_map_of_mem (f := Prod.snd) hp, hocc⟩

theorem Leaks.of_infix {needles : List (String × List UInt8)} {hay hay' : List UInt8}
    (h : Leaks needles hay) (hpart : hay <:+: hay') : Leaks needles hay' := by
  obtain ⟨n, hn, hne, pat, hpat, hocc⟩ := h
  exact ⟨n, hn, hne, pat, hpat, hocc.trans hpart⟩

/-- A form of a needle is not empty. -/
theorem Leaks.ne_nil {needles : List (String × List UInt8)} {hay : List UInt8}
    (h : Leaks needles hay) : hay ≠ [] := by
  obtain ⟨n, -, hne, pat, hpat, hocc⟩ := h
  rintro rfl
  have hnil : pat = [] := List.infix_nil.mp hocc
  subst hnil
  have hforms : ∀ p ∈ [n.2, petsciiForm n.2, petsciiShiftedForm n.2, n.2.reverse],
      p.length = n.2.length := by
    simp [petsciiForm, petsciiShiftedForm]
  exact hne (List.length_eq_zero_iff.mp (hforms [] hpat).symm)

/-- A leak in what is searched: a datagram, or a frame by itself. -/
def SearchedLeak (frames : List Frame) (needles : List (String × List UInt8)) : Prop :=
  (∃ d ∈ reassemble frames, Leaks needles d.data) ∨
    ∃ f ∈ frames, Leaks needles (frameHay f).2.2

theorem frameFindings_eq_nil {f : Frame} {needle : String × List UInt8} :
    frameFindings f needle = [] ↔ (frameHay f).2.2 = [] ∨ needle.2 = [] ∨
      searchForms (frameHay f).2.2 needle.2 = [] := by
  rw [frameFindings]
  by_cases h : (frameHay f).2.2 = [] ∨ needle.2 = []
  · rw [← or_assoc]
    simp [h]
  · rw [← or_assoc]
    simp [h]

/-- Every leak in what is searched is found. -/
theorem findPlaintext_of_searchedLeak {frames : List Frame} {needles : List (String × List UInt8)}
    (h : SearchedLeak frames needles) (partialMin : Int) :
    findPlaintext (reassemble frames) frames needles partialMin ≠ [] := by
  intro hnil
  obtain ⟨hdgs, hframes⟩ := List.append_eq_nil_iff.mp hnil
  rw [List.flatMap_eq_nil_iff] at hdgs hframes
  rcases h with ⟨d, hd, hleak⟩ | ⟨f, hf, hleak⟩
  · obtain ⟨n, hn, hne, hhits⟩ := leaks_iff.mp hleak
    obtain ⟨i, hi⟩ := List.mem_iff_getElem?.mp hd
    have hnone := List.flatMap_eq_nil_iff.mp
      (hdgs (d, i) (List.mk_mem_zipIdx_iff_getElem?.mpr hi)) n hn
    rw [datagramFindings, if_neg hne, if_pos hhits, List.map_eq_nil_iff] at hnone
    exact hhits hnone
  · obtain ⟨n, hn, hne, hhits⟩ := leaks_iff.mp hleak
    have hnone := List.flatMap_eq_nil_iff.mp (hframes f hf) n hn
    rcases frameFindings_eq_nil.mp hnone with h | h | h
    · exact hleak.ne_nil h
    · exact hne h
    · exact hhits h

/-- Nothing is found when nothing leaks, and parts are not looked for. -/
theorem findPlaintext_eq_nil {frames : List Frame} {needles : List (String × List UInt8)}
    (h : ¬ SearchedLeak frames needles) {partialMin : Int}
    (hwindow : ∀ n ∈ needles, (n.2.length : Int) ≤ partialMin) :
    findPlaintext (reassemble frames) frames needles partialMin = [] := by
  refine List.append_eq_nil_iff.mpr ⟨?_, ?_⟩
  · refine List.flatMap_eq_nil_iff.mpr fun d hd => List.flatMap_eq_nil_iff.mpr fun n hn => ?_
    by_cases hne : n.2 = []
    · exact if_pos hne
    · have hhits : searchForms d.1.data n.2 = [] := by
        by_contra hhits
        refine h (.inl ⟨d.1, ?_, leaks_iff.mpr ⟨n, hn, hne, hhits⟩⟩)
        exact List.mem_of_getElem? (List.mk_mem_zipIdx_iff_getElem?.mp hd)
      have hlong : ¬ (partialMin ≤ ((longestRun d.1.data n.2).1 : Int) ∧
          (longestRun d.1.data n.2).1 < n.2.length) := by
        have := hwindow n hn
        omega
      rw [datagramFindings, if_neg hne, if_neg (not_not_intro hhits)]
      exact if_neg hlong
  · refine List.flatMap_eq_nil_iff.mpr fun f hf => List.flatMap_eq_nil_iff.mpr fun n hn => ?_
    refine frameFindings_eq_nil.mpr ?_
    by_cases hne : n.2 = []
    · exact .inr (.inl hne)
    · refine .inr (.inr ?_)
      by_contra hhits
      exact h (.inr ⟨f, hf, leaks_iff.mpr ⟨n, hn, hne, hhits⟩⟩)

/-- A pass means that nothing was found. -/
theorem findPlaintext_of_ok {frames : List Frame} {needles : List (String × List UInt8)}
    {opts : Options} (h : (checkPlaintextAbsent frames needles opts).ok = true) :
    findPlaintext (reassemble frames) frames needles opts.partialMin = [] := by
  unfold checkPlaintextAbsent at h
  split at h
  · exact nomatch h
  · split at h
    · exact nomatch h
    · dsimp only at h
      split at h
      · exact nomatch h
      · split at h
        · exact nomatch h
        · exact nomatch h
        · assumption

/-- With a corpus that is large enough for anybody, the verdict is a pass when nothing is found. -/
theorem ok_of_findPlaintext {frames : List Frame} {needles : List (String × List UInt8)}
    {partialMin : Int} (hneedles : ∃ n ∈ needles, n.2 ≠ []) (hdgs : reassemble frames ≠ [])
    (h : findPlaintext (reassemble frames) frames needles partialMin = []) :
    (checkPlaintextAbsent frames needles
      { c64Mac := some [], minC64Datagrams := 0, partialMin := partialMin }).ok = true := by
  obtain ⟨n, hn, hne⟩ := hneedles
  have hany : ¬ (needles = [] ∨ ¬ needles.any (fun n => n.2 ≠ [])) := by
    rintro (hnil | hnone)
    · rw [hnil] at hn
      exact List.not_mem_nil hn
    · exact hnone (List.any_eq_true.mpr ⟨n, hn, by simpa using hne⟩)
  have hframes : frames ≠ [] := by
    rintro rfl
    exact hdgs rfl
  rw [checkPlaintextAbsent, if_neg hany, if_neg hframes]
  dsimp only
  rw [if_neg hdgs]
  simp only [h]
  rw [if_neg (by omega)]

/-! ## What hides -/

/-- The frames of a capture, from the index and the bytes of each record. -/
def readFrames (records : List (Nat × List UInt8)) : List Frame :=
  records.filterMap fun r => decodeFrame r.1 r.2

/-- What lies behind the IP total length. -/
def padding (f : Frame) : List UInt8 :=
  let body := (unwrap f.raw).2
  body.drop (word body 2)

/-- No form of a needle is in an IP payload, in padding, or in another frame. -/
structure Absent (frames : List Frame) (needles : List (String × List UInt8)) : Prop where
  payload : ∀ f ∈ frames, f.isIp → ¬ Leaks needles f.ipPayload
  padding : ∀ f ∈ frames, f.isIp → ¬ Leaks needles (padding f)
  other : ∀ f ∈ frames, ¬ f.isIp → ¬ Leaks needles (f.raw.drop 14)

/-- Another frame of the same datagram has other bytes where the two overlap. -/
def Overwritten (frames : List Frame) (f : Frame) : Prop :=
  ∃ g ∈ frames, g.isIp ∧ g.key = f.key ∧ ¬ Agree f.piece g.piece

/-- A leak in what one frame of a datagram has and another has not, or behind a tagged packet. -/
def HiddenLeak (frames : List Frame) (needles : List (String × List UInt8)) : Prop :=
  ∃ f ∈ frames, f.isIp ∧ (Overwritten frames f ∧ Leaks needles f.ipPayload ∨
    tagged f.raw ∧ Leaks needles (padding f))

/-- **A payload reaches its datagram** when no frame of the same datagram disagrees. -/
theorem payload_infix_data {frames : List Frame} {f : Frame} (hf : f ∈ frames) (hip : f.isIp)
    (hagree : ¬ Overwritten frames f) : ∃ d ∈ reassemble frames, f.ipPayload <:+: d.data := by
  have hmem : f ∈ frames.filter Frame.isIp := List.mem_filter.mpr ⟨hf, hip⟩
  have hkey : f.key ∈ (reassemble frames).map Datagram.key := by
    rw [keys_reassemble, List.mem_eraseDups]
    exact List.mem_map_of_mem hmem
  obtain ⟨d, hd, hdkey⟩ := List.mem_map.mp hkey
  obtain ⟨g, hg, hdg⟩ := gather_of_mem_reassemble hd
  obtain ⟨hpieces, -⟩ := gather_add hg
  have hdata : d.data = (sorted g.pieces).foldl (write 0) [] := by
    rw [hdg, Group.datagram]
    exact foldl_place_fst 0 _ _
  refine ⟨d, hd, ?_⟩
  rw [hdata]
  refine Held.infix (p := f.piece) (held_foldl 0 [] ?_ fun q hq => ?_)
  · rw [mem_sorted, hpieces]
    exact List.mem_map_of_mem (List.mem_filter.mpr ⟨hmem, by simp [hdkey]⟩)
  · rw [mem_sorted, hpieces] at hq
    obtain ⟨e, he, rfl⟩ := List.mem_map.mp hq
    obtain ⟨he, hekey⟩ := List.mem_filter.mp he
    obtain ⟨he, heip⟩ := List.mem_filter.mp he
    by_contra hne
    exact hagree ⟨e, he, heip, (of_decide_eq_true hekey).trans hdkey, hne⟩

/-- A decoded frame keeps its bytes, and an IPv4 packet has a header. -/
theorem decodeFrame_spec {index : Nat} {raw : List UInt8} {f : Frame}
    (h : decodeFrame index raw = some f) :
    f.raw = raw ∧ (f.isIp → 20 ≤ (unwrap raw).2.length) := by
  unfold decodeFrame at h
  split at h
  · exact nomatch h
  · dsimp only at h
    split at h
    · obtain rfl := Option.some.inj h
      exact ⟨rfl, fun hip => by simp [Frame.isIp] at hip⟩
    · split at h
      · obtain rfl := Option.some.inj h
        exact ⟨rfl, fun hip => by simp [Frame.isIp] at hip⟩
      · rename_i hshort
        have hlen : 20 ≤ (unwrap raw).2.length := by omega
        split at h
        · obtain rfl := Option.some.inj h
          exact ⟨rfl, fun _ => hlen⟩
        · obtain rfl := Option.some.inj h
          exact ⟨rfl, fun _ => hlen⟩

/-- Without a tag the padding is searched. -/
theorem frameHay_of_untagged {index : Nat} {raw : List UInt8} {f : Frame}
    (h : decodeFrame index raw = some f) (hip : f.isIp) (htag : ¬ tagged f.raw) :
    (frameHay f).2.2 = padding f := by
  obtain ⟨hraw, hlen⟩ := decodeFrame_spec h
  have hunwrap : unwrap f.raw = (word f.raw 12, f.raw.drop 14) := if_neg htag
  have hlen := hlen hip
  rw [← hraw, hunwrap] at hlen
  rw [frameHay, padding, hunwrap]
  dsimp only at hlen ⊢
  rw [if_pos hip, if_neg (by omega)]

theorem frameHay_of_not_isIp {f : Frame} (hip : ¬ f.isIp) : (frameHay f).2.2 = f.raw.drop 14 := by
  rw [frameHay, if_neg hip]

/-- **A leak is searched or hidden.** -/
theorem absent_of_not_leak {records : List (Nat × List UInt8)} {needles : List (String × List UInt8)}
    (hsearched : ¬ SearchedLeak (readFrames records) needles)
    (hhidden : ¬ HiddenLeak (readFrames records) needles) : Absent (readFrames records) needles := by
  refine ⟨fun f hf hip hleak => ?_, fun f hf hip hleak => ?_, fun f hf hip hleak => ?_⟩
  · by_cases hover : Overwritten (readFrames records) f
    · exact hhidden ⟨f, hf, hip, .inl ⟨hover, hleak⟩⟩
    · obtain ⟨d, hd, hpart⟩ := payload_infix_data hf hip hover
      exact hsearched (.inl ⟨d, hd, hleak.of_infix hpart⟩)
  · by_cases htag : tagged f.raw
    · exact hhidden ⟨f, hf, hip, .inr ⟨htag, hleak⟩⟩
    · obtain ⟨r, -, hr⟩ := List.mem_filterMap.mp hf
      refine hsearched (.inr ⟨f, hf, ?_⟩)
      rwa [frameHay_of_untagged hr hip htag]
  · refine hsearched (.inr ⟨f, hf, ?_⟩)
    rwa [frameHay_of_not_isIp hip]

/-- **The leak check.** For the frames of any capture and any needles: a pass means that no needle, in
any of its forms, is in a payload, in padding or in a frame that is not IPv4, exactly when a leak that
hides (in a payload that another frame of the same datagram overwrites with other bytes, or in the
padding of a tagged frame) never comes without a leak in what is searched. -/
theorem checkPlaintextAbsent_iff (records : List (Nat × List UInt8))
    (needles : List (String × List UInt8)) :
    (∀ opts, (checkPlaintextAbsent (readFrames records) needles opts).ok = true →
        Absent (readFrames records) needles) ↔
      (HiddenLeak (readFrames records) needles → SearchedLeak (readFrames records) needles) := by
  constructor
  · intro hsound hhidden
    by_contra hsearched
    obtain ⟨f, hf, hip, hleak⟩ := hhidden
    have hneedles : ∃ n ∈ needles, n.2 ≠ [] := by
      rcases hleak with ⟨-, n, hn, hne, -⟩ | ⟨-, n, hn, hne, -⟩
      · exact ⟨n, hn, hne⟩
      · exact ⟨n, hn, hne⟩
    have hdgs : reassemble (readFrames records) ≠ [] := by
      intro hnil
      have hkeys := keys_reassemble (readFrames records)
      rw [hnil] at hkeys
      have hmem : f.key ∈ (((readFrames records).filter Frame.isIp).map Frame.key).eraseDups :=
        List.mem_eraseDups.mpr (List.mem_map_of_mem (List.mem_filter.mpr ⟨hf, hip⟩))
      rw [← hkeys] at hmem
      exact List.not_mem_nil hmem
    have hlong : ∀ n ∈ needles, (n.2.length : Int) ≤ ((needles.map fun n => n.2.length).sum : Nat) :=
      fun n hn => Int.ofNat_le.mpr
        (List.single_le_sum (fun _ _ => Nat.zero_le _) _ (List.mem_map_of_mem hn))
    have habsent := hsound _ (ok_of_findPlaintext hneedles hdgs
      (findPlaintext_eq_nil hsearched hlong))
    rcases hleak with ⟨-, hleak⟩ | ⟨-, hleak⟩
    · exact habsent.payload f hf hip hleak
    · exact habsent.padding f hf hip hleak
  · intro himp opts hok
    have hsearched : ¬ SearchedLeak (readFrames records) needles :=
      fun h => findPlaintext_of_searchedLeak h opts.partialMin (findPlaintext_of_ok hok)
    exact absent_of_not_leak hsearched fun h => hsearched (himp h)

/-- An Ethernet frame with an IPv4 packet from one station to another. -/
def ipFrame (tag : List UInt8) (flags : UInt8) (payload behind : List UInt8) : List UInt8 :=
  [2, 0, 0, 0, 0, 2, 2, 0, 0, 0, 0, 1] ++ tag ++ [0x08, 0x00, 0x45, 0, 0] ++
    [UInt8.ofNat (20 + payload.length), 0x12, 0x34, flags, 0, 64, 253, 0, 0, 10, 0, 0, 1,
      10, 0, 0, 2] ++ payload ++ behind

/-- A fragment with `KEY12345` that is overwritten by another at the same offset, and `KEY12345` in
the padding of a tagged frame: both pass. -/
theorem checkPlaintextAbsent_misses :
    let needles := [("key", [0x4b, 0x45, 0x59, 0x31, 0x32, 0x33, 0x34, 0x35])]
    let opts : Options := { c64Mac := some [2, 0, 0, 0, 0, 1] }
    (∃ records, (checkPlaintextAbsent (readFrames records) needles opts).ok = true ∧
      ∃ f ∈ readFrames records, f.isIp ∧ Leaks needles f.ipPayload) ∧
    ∃ records, (checkPlaintextAbsent (readFrames records) needles opts).ok = true ∧
      ∃ f ∈ readFrames records, f.isIp ∧ Leaks needles (padding f) := by
  refine ⟨⟨[(0, ipFrame [] 0x20 [0x4b, 0x45, 0x59, 0x31, 0x32, 0x33, 0x34, 0x35] []),
    (1, ipFrame [] 0x20 [0, 1, 2, 3, 4, 5, 6, 7] [])], ?_, ?_⟩,
    [(0, ipFrame [0x81, 0x00, 0, 1] 0 [0] [0x4b, 0x45, 0x59, 0x31, 0x32, 0x33, 0x34, 0x35])],
    ?_, ?_⟩
  · decide +kernel
  · refine ⟨_, List.mem_cons_self, by decide, _, List.mem_cons_self, by decide, _,
      List.mem_cons_self, List.infix_rfl⟩
  · decide +kernel
  · refine ⟨_, List.mem_cons_self, by decide, _, List.mem_cons_self, by decide, _,
      List.mem_cons_self, List.infix_rfl⟩

end C64WireGuard.Tools.HwChecks
