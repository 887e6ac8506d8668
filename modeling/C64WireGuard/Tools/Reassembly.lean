import C64WireGuard.Lib.Grouping
import C64WireGuard.Lib.Multibyte
import C64WireGuard.Lib.Pieces

/-!
# `ip65_hw_checks.py`: frames and datagrams

`_decode_frame` reads the headers of a captured Ethernet frame, and `reassemble` groups the IPv4
frames of a capture into datagrams: fragments by source, destination, protocol and id, and every other
frame by itself.
-/

namespace C64WireGuard.Tools

open Grouping Pieces

/-! ## `_decode_frame` -/

/-- `ETHERTYPE_IPV4`. -/
def ethertypeIpv4 : Nat := 0x0800

/-- `ETHERTYPE_ARP`. -/
def ethertypeArp : Nat := 0x0806

/-- `IPPROTO_UDP`. -/
def ipprotoUdp : Nat := 17

/-- `Frame`; the fields behind `raw` are set for IPv4 only. -/
structure Frame where
  index : Nat
  ethSrc : List UInt8
  ethDst : List UInt8
  ethertype : Nat
  raw : List UInt8
  ipSrc : Option (List UInt8)
  ipDst : Option (List UInt8)
  ipProto : Option Nat
  ipId : Option Nat
  fragOff : Option Nat
  moreFrags : Bool
  ipPayload : List UInt8
  sport : Option Nat
  dport : Option Nat
deriving DecidableEq

/-- The two bytes at an offset, the high one first. -/
def word (bs : List UInt8) (off : Nat) : Nat := beNat ((bs.drop off).take 2)

/-- The frame has an 802.1Q tag. -/
def tagged (raw : List UInt8) : Bool := word raw 12 = 0x8100 ∧ 4 ≤ (raw.drop 14).length

/-- EtherType and body of a frame, one tag unwrapped. -/
def unwrap (raw : List UInt8) : Nat × List UInt8 :=
  if tagged raw then (word (raw.drop 14) 2, (raw.drop 14).drop 4) else (word raw 12, raw.drop 14)

/-- The length of the IP header. -/
def ihl (body : List UInt8) : Nat := (body.getD 0 0 &&& 0x0f).toNat * 4

/-- The body without what lies behind the IP total length, if that is a length it can have. -/
def trim (body : List UInt8) : List UInt8 :=
  if 20 ≤ word body 2 ∧ word body 2 ≤ body.length then body.take (word body 2) else body

/-- The IPv4 fields. -/
def decodeIpv4 (f : Frame) (header : Nat) (body : List UInt8) : Frame :=
  let flagsFrag := word body 6
  let proto := (body.getD 9 0).toNat
  let fragOff := (flagsFrag &&& 0x1fff) * 8
  let payload := body.drop header
  let udp : Bool := proto = ipprotoUdp ∧ fragOff = 0 ∧ 8 ≤ payload.length
  { f with
    ipSrc := some ((body.drop 12).take 4)
    ipDst := some ((body.drop 16).take 4)
    ipProto := some proto
    ipId := some (word body 4)
    fragOff := some fragOff
    moreFrags := flagsFrag &&& 0x2000 ≠ 0
    ipPayload := payload
    sport := if udp then some (word payload 0) else none
    dport := if udp then some (word payload 2) else none }

/-- `_decode_frame`. -/
def decodeFrame (index : Nat) (raw : List UInt8) : Option Frame :=
  if raw.length < 14 then none
  else
    let (etype, body) := unwrap raw
    let f : Frame :=
      { index := index, ethSrc := (raw.drop 6).take 6, ethDst := raw.take 6, ethertype := etype,
        raw := raw, ipSrc := none, ipDst := none, ipProto := none, ipId := none, fragOff := none,
        moreFrags := false, ipPayload := [], sport := none, dport := none }
    if etype = ethertypeArp then some f
    else if etype ≠ ethertypeIpv4 ∨ body.length < 20 then some f
    else if ihl body < 20 ∨ body.length < ihl body then some f
    else some (decodeIpv4 f (ihl body) (trim body))

/-! ## `reassemble` -/

/-- `Frame.is_fragmented`. -/
def Frame.isFragmented (f : Frame) : Bool := f.moreFrags || f.fragOff.getD 0 ≠ 0

/-- What frames of one datagram share. -/
inductive Key
  | fragments (src dst : List UInt8) (proto id : Option Nat)
  | whole (index : Nat)
deriving DecidableEq

/-- The key of a frame. One that is not a fragment is never grouped, whatever its id: ip65 sends
every UDP packet with the same. -/
def Frame.key (f : Frame) : Key :=
  if f.isFragmented then .fragments (f.ipSrc.getD []) (f.ipDst.getD []) f.ipProto f.ipId
  else .whole f.index

/-- The frames that take part. -/
def Frame.isIp (f : Frame) : Bool := f.ethertype = ethertypeIpv4 ∧ f.ipProto ≠ none

/-- The offset and the bytes of a frame. -/
def Frame.piece (f : Frame) : Nat × List UInt8 := (f.fragOff.getD 0, f.ipPayload)

-- Which sender is on a list, the tools ask in several places.
scoped instance lawfulBEq_bytes : LawfulBEq (List UInt8) := inferInstance

/-- An entry of `groups`. -/
structure Group where
  pieces : List (Nat × List UInt8)
  srcs : List (List UInt8)
  idx : List Nat
  lastSeen : Bool
  sport : Option Nat
  dport : Option Nat
  ipSrc : List UInt8
  ipDst : List UInt8
  proto : Option Nat

/-- A new entry, for the first frame of its key. -/
def Group.new (f : Frame) : Group :=
  { pieces := [], srcs := [], idx := [], lastSeen := false, sport := none, dport := none,
    ipSrc := f.ipSrc.getD [], ipDst := f.ipDst.getD [], proto := f.ipProto }

/-- Put a frame into an entry. -/
def Group.add (f : Frame) (g : Group) : Group :=
  { g with
    pieces := g.pieces ++ [f.piece]
    idx := g.idx ++ [f.index]
    srcs := if f.ethSrc ∉ g.srcs then g.srcs ++ [f.ethSrc] else g.srcs
    lastSeen := if f.moreFrags then g.lastSeen else true
    sport := if f.fragOff = some 0 then f.sport else g.sport
    dport := if f.fragOff = some 0 then f.dport else g.dport }

/-- `Datagram`. -/
structure Datagram where
  key : Key
  data : List UInt8
  frameIndices : List Nat
  ethSrcs : List (List UInt8)
  ipSrc : List UInt8
  ipDst : List UInt8
  ipProto : Option Nat
  complete : Bool
  sport : Option Nat
  dport : Option Nat
deriving DecidableEq

/-- The datagram of an entry: its pieces by offset, complete if the last one is there and none is
missing before it. -/
def Group.datagram (key : Key) (g : Group) : Datagram :=
  let built := (sorted g.pieces).foldl (place 0) ([], g.lastSeen)
  { key := key, data := built.1, frameIndices := g.idx, ethSrcs := g.srcs, ipSrc := g.ipSrc,
    ipDst := g.ipDst, ipProto := g.proto, complete := built.2, sport := g.sport, dport := g.dport }

/-- `reassemble`. -/
def reassemble (frames : List Frame) : List Datagram :=
  (collect Frame.key Group.new Group.add (frames.filter Frame.isIp)).map fun e => e.2.datagram e.1

/-- The datagrams in the order in which their keys appear first. -/
theorem keys_reassemble (frames : List Frame) :
    (reassemble frames).map Datagram.key = ((frames.filter Frame.isIp).map Frame.key).eraseDups := by
  rw [reassemble, List.map_map, ← keys_collect Frame.key Group.new Group.add]
  rfl

/-- **A datagram is made of the frames with its key.** -/
theorem gather_of_mem_reassemble {frames : List Frame} {d : Datagram} (hd : d ∈ reassemble frames) :
    ∃ g, gather Group.new Group.add ((frames.filter Frame.isIp).filter fun f => f.key = d.key) =
      some g ∧ d = g.datagram d.key := by
  obtain ⟨e, he, rfl⟩ := List.mem_map.mp hd
  exact ⟨e.2, gather_of_mem_collect _ _ _ he, rfl⟩

/-- **Frames with other keys do not matter to a datagram.** -/
theorem filter_reassemble (p : Key → Bool) (frames : List Frame) :
    (reassemble frames).filter (fun d => p d.key) = reassemble (frames.filter fun f => p f.key) := by
  rw [reassemble, List.filter_map]
  have hcollect := filter_collect Frame.key Group.new Group.add p (frames.filter Frame.isIp)
  have hcomm : (frames.filter fun f => p f.key).filter Frame.isIp =
      (frames.filter Frame.isIp).filter fun f => p f.key := List.filter_comm _ _ _
  rw [reassemble, hcomm, ← hcollect]
  rfl

/-! ## The entry of a list of frames -/

theorem foldl_add (fs : List Frame) (g : Group) :
    let r := fs.foldl (fun g f => Group.add f g) g
    r.pieces = g.pieces ++ fs.map Frame.piece ∧ r.idx = g.idx ++ fs.map Frame.index ∧
      r.lastSeen = (g.lastSeen || fs.any fun f => !f.moreFrags) ∧ r.ipSrc = g.ipSrc ∧
      r.ipDst = g.ipDst ∧ r.proto = g.proto := by
  induction fs generalizing g with
  | nil => simp
  | cons f fs ih =>
    obtain ⟨hpieces, hidx, hlast, hsrc, hdst, hproto⟩ := ih (Group.add f g)
    refine ⟨?_, ?_, ?_, hsrc, hdst, hproto⟩
    · rw [List.foldl_cons, hpieces, Group.add, List.append_assoc]
      rfl
    · rw [List.foldl_cons, hidx, Group.add, List.append_assoc]
      rfl
    · rw [List.foldl_cons, hlast, Group.add, List.any_cons]
      cases f.moreFrags <;> simp

/-- The ports are those of the frame at offset 0, when there is one. -/
theorem foldl_add_ports {fs : List Frame} {first : Frame} (hzero : first.fragOff = some 0)
    (honly : ∀ f ∈ fs, f.fragOff = some 0 → f = first) (g : Group)
    (h : first ∈ fs ∨ g.sport = first.sport ∧ g.dport = first.dport) :
    (fs.foldl (fun g f => Group.add f g) g).sport = first.sport ∧
      (fs.foldl (fun g f => Group.add f g) g).dport = first.dport := by
  induction fs generalizing g with
  | nil => exact h.resolve_left List.not_mem_nil
  | cons f fs ih =>
    refine ih (fun x hx => honly x (List.mem_cons_of_mem f hx)) _ ?_
    by_cases hf : f.fragOff = some 0
    · have hfirst := honly f List.mem_cons_self hf
      exact .inr ⟨(if_pos hf).trans (by rw [hfirst]), (if_pos hf).trans (by rw [hfirst])⟩
    · rcases h with h | ⟨hs, hd⟩
      · rcases List.mem_cons.mp h with rfl | h
        · exact absurd hzero hf
        · exact .inl h
      · exact .inr ⟨(if_neg hf).trans hs, (if_neg hf).trans hd⟩

/-- What a datagram reports of its frames. -/
theorem gather_add {fs : List Frame} {g : Group} (hg : gather Group.new Group.add fs = some g) :
    g.pieces = fs.map Frame.piece ∧ g.idx = fs.map Frame.index ∧
      g.lastSeen = (fs.any fun f => !f.moreFrags) ∧
      (∃ f ∈ fs, g.ipSrc = f.ipSrc.getD [] ∧ g.ipDst = f.ipDst.getD [] ∧ g.proto = f.ipProto) ∧
      ∀ first ∈ fs, first.fragOff = some 0 → (∀ f ∈ fs, f.fragOff = some 0 → f = first) →
        g.sport = first.sport ∧ g.dport = first.dport := by
  cases fs with
  | nil => exact nomatch hg
  | cons f fs =>
    obtain rfl := Option.some.inj hg
    obtain ⟨hpieces, hidx, hlast, hsrc, hdst, hproto⟩ := foldl_add (f :: fs) (Group.new f)
    refine ⟨hpieces, hidx, hlast, ⟨f, List.mem_cons_self, hsrc, hdst, hproto⟩, ?_⟩
    intro first hfirst hzero honly
    exact foldl_add_ports hzero honly _ (.inl hfirst)

end C64WireGuard.Tools
