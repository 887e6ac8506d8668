import C64WireGuard.Lib.Alu
import C64WireGuard.MainLoop

/-!
# `read_input_line` on its registers

The routine types in place, in the payload slot of `ip_packet_buf`, and keeps its position in memory
because `GETIN` clobbers X and Y. One pass of its loop is an edit of the line typed so far
(`rilLoop_typed`), so a run of it is the fold of the edits over the keys (`readInputCells_line`).
-/

namespace C64WireGuard

open Bytes Alu

/-! ## The routine -/

/-- Where the linker puts `ip_packet_buf`: in the address space with all of its `WG_MTU` bytes. -/
structure InputLayout where
  build : Build
  ipPacketBuf : Nat
  inRange : ipPacketBuf + build.wgMtu ≤ 65536

/-- What `GETIN` returns: the key in A, and anything in X and Y. -/
structure Getin where
  a : UInt8
  x : UInt8
  y : UInt8

/-- The registers, the cells and the memory. `stores` and `echoed` are ghosts: the addresses stored
to through `zp_ptr1`, and what went to `CHROUT`, oldest first. -/
structure InputState where
  a : UInt8
  x : UInt8
  y : UInt8
  zpTmp1 : UInt8
  zpPtr1 : Cell16
  msgInputLen : Cell16
  ram : Nat → UInt8
  stores : List Nat
  echoed : List UInt8

namespace InputState

/-- `chrout` preserves A; `clobber` is what it leaves in X and Y. -/
def chrout (clobber : UInt8 → UInt8 × UInt8) (s : InputState) : InputState :=
  { s with x := (clobber s.a).1, y := (clobber s.a).2, echoed := s.echoed ++ [s.a] }

/-- `sta (zp_ptr1),y`. -/
def staPtr (s : InputState) : InputState :=
  let addr := (s.zpPtr1.toNat + s.y.toNat) % 65536
  { s with
    ram := fun i => if i = addr then s.a else s.ram i
    stores := s.stores ++ [addr] }

end InputState

variable (lay : InputLayout) (clobber : UInt8 → UInt8 × UInt8)

/-- `@ril_store`. -/
def rilStore (s : InputState) : InputState :=
  let s := { s with zpPtr1 := (Cell16.ofNat (lay.ipPacketBuf + ipUdpHdrLen)).add s.msgInputLen }
  let s := ({ s with y := 0, a := s.zpTmp1 } : InputState).staPtr.chrout clobber
  { s with msgInputLen := s.msgInputLen.inc }

/-- `@ril_del`. -/
def rilDel (s : InputState) : InputState :=
  let s := { s with a := s.msgInputLen.lo ||| s.msgInputLen.hi }
  if s.a = 0 then s
  else ({ s with a := 0x14, msgInputLen := s.msgInputLen.dec } : InputState).chrout clobber

/-- One pass of `@ril_loop`, and whether it goes to `@ril_done`. -/
def rilLoop (key : Getin) (s : InputState) : Bool × InputState :=
  let s := { s with a := key.a, x := key.x, y := key.y }
  if s.a = 0 then (false, s)
  else if s.a = 0x0d then (true, s)
  else if s.a = 0x14 then (false, rilDel clobber s)
  else
    let s := { s with zpTmp1 := s.a, a := s.msgInputLen.hi }
    if s.a < hi (msgTextMax lay.build) then (false, rilStore lay clobber s)
    else if s.a ≠ hi (msgTextMax lay.build) then (false, s)
    else
      let s := { s with a := s.msgInputLen.lo }
      if lo (msgTextMax lay.build) ≤ s.a then (false, s) else (false, rilStore lay clobber s)

/-- `@ril_loop` on the results of `GETIN`; `none` when they end before the line does. -/
def rilLoops : List Getin → InputState → Option InputState
  | [], _ => none
  | key :: keys, s =>
    let r := rilLoop lay clobber key s
    if r.1 then some r.2 else rilLoops keys r.2

/-- `read_input_line`. -/
def readInputCells (keys : List Getin) (s : InputState) : Option InputState :=
  (rilLoops lay clobber keys { s with a := 0, msgInputLen := ⟨0, 0⟩ }).map fun s =>
    ({ s with a := 0x0d } : InputState).chrout clobber

/-! ## Lines -/

/-- A key as an edit of the line: DELETE drops the last byte, other bytes are appended while there is
room, and no key is no edit. -/
def editLine (max : Nat) (line : List UInt8) (key : UInt8) : List UInt8 :=
  if key = 0 then line
  else if key = 0x14 then line.dropLast
  else if line.length < max then line ++ [key]
  else line

/-- What the edit echoes. -/
def editEcho (max : Nat) (line : List UInt8) (key : UInt8) : List UInt8 :=
  if key = 0 then []
  else if key = 0x14 then if line = [] then [] else [0x14]
  else if line.length < max then [key]
  else []

/-- What the edits of `keys` echo, one after another. -/
def lineEcho (max : Nat) : List UInt8 → List UInt8 → List UInt8
  | _, [] => []
  | line, key :: keys => editEcho max line key ++ lineEcho max (editLine max line key) keys

/-- The cells hold `line`: its length, and its bytes in the payload slot. -/
structure Typed (line : List UInt8) (s : InputState) : Prop where
  len : s.msgInputLen.toNat = line.length
  room : line.length ≤ msgTextMax lay.build
  text : (List.range line.length).map (fun i => s.ram (lay.ipPacketBuf + ipUdpHdrLen + i)) = line

/-- Every store from `s` to `s'` went into the payload slot, and memory changed nowhere else. -/
structure InSlot (s s' : InputState) : Prop where
  stores : ∃ new, s'.stores = s.stores ++ new ∧
    ∀ a ∈ new, lay.ipPacketBuf + ipUdpHdrLen ≤ a ∧ a < lay.ipPacketBuf + lay.build.wgMtu
  outside : ∀ a, ¬ (lay.ipPacketBuf + ipUdpHdrLen ≤ a ∧ a < lay.ipPacketBuf + lay.build.wgMtu) →
    s'.ram a = s.ram a

variable {lay} {s s₁ s₂ : InputState} {line : List UInt8}

theorem InSlot.of_eq (hstores : s₂.stores = s₁.stores) (hram : s₂.ram = s₁.ram) : InSlot lay s₁ s₂ :=
  ⟨⟨[], by simp [hstores], by simp⟩, fun a _ => congrFun hram a⟩

theorem InSlot.trans {s₃ : InputState} (h₁ : InSlot lay s₁ s₂) (h₂ : InSlot lay s₂ s₃) :
    InSlot lay s₁ s₃ := by
  obtain ⟨new₁, hstores₁, hin₁⟩ := h₁.stores
  obtain ⟨new₂, hstores₂, hin₂⟩ := h₂.stores
  refine ⟨⟨new₁ ++ new₂, by rw [hstores₂, hstores₁, List.append_assoc], fun a ha => ?_⟩,
    fun a ha => (h₂.outside a ha).trans (h₁.outside a ha)⟩
  rcases List.mem_append.mp ha with ha | ha
  · exact hin₁ a ha
  · exact hin₂ a ha

/-! ## One key -/

/-- The parked key goes to the end of the line, through a pointer that stays in the slot. -/
theorem rilStore_typed (h : Typed lay line s) (hroom : line.length < msgTextMax lay.build) :
    Typed lay (line ++ [s.zpTmp1]) (rilStore lay clobber s) ∧
      InSlot lay s (rilStore lay clobber s) ∧
      (rilStore lay clobber s).echoed = s.echoed ++ [s.zpTmp1] := by
  have hrange := lay.inRange
  have hmtu := lay.build.wgMtu_ge
  have hlen := h.len
  simp only [msgTextMax, ipUdpHdrLen] at hroom
  have hptr : (((Cell16.ofNat (lay.ipPacketBuf + ipUdpHdrLen)).add s.msgInputLen).toNat +
      (0 : UInt8).toNat) % 65536 = lay.ipPacketBuf + ipUdpHdrLen + line.length := by
    rw [Cell16.toNat_add, Cell16.toNat_ofNat, hlen, UInt8.toNat_zero, ipUdpHdrLen]
    omega
  have hram : (rilStore lay clobber s).ram = fun i =>
      if i = lay.ipPacketBuf + ipUdpHdrLen + line.length then s.zpTmp1 else s.ram i := by
    simp only [rilStore, InputState.chrout, InputState.staPtr, hptr]
  have hstores : (rilStore lay clobber s).stores =
      s.stores ++ [lay.ipPacketBuf + ipUdpHdrLen + line.length] := by
    simp only [rilStore, InputState.chrout, InputState.staPtr, hptr]
  refine ⟨⟨?_, ?_, ?_⟩, ⟨⟨_, hstores, ?_⟩, ?_⟩, rfl⟩
  · have hinc : (rilStore lay clobber s).msgInputLen = s.msgInputLen.inc := rfl
    rw [hinc, Cell16.toNat_inc, hlen, List.length_append, List.length_singleton]
    omega
  · rw [List.length_append, List.length_singleton, msgTextMax, ipUdpHdrLen]
    omega
  · rw [hram, List.length_append, List.length_singleton, List.range_succ, List.map_append,
      List.map_singleton]
    dsimp only
    rw [if_pos rfl]
    refine congrArg (· ++ [s.zpTmp1]) (.trans ?_ h.text)
    refine List.map_congr_left fun i hi => if_neg ?_
    have := List.mem_range.mp hi
    omega
  · intro a ha
    rw [List.mem_singleton.mp ha, ipUdpHdrLen]
    omega
  · intro a ha
    rw [hram]
    refine if_neg fun heq => ha ?_
    rw [heq, ipUdpHdrLen]
    omega

/-- DELETE takes the last byte off the count. -/
theorem rilDel_typed (h : Typed lay line s) :
    Typed lay line.dropLast (rilDel clobber s) ∧ InSlot lay s (rilDel clobber s) ∧
      (rilDel clobber s).echoed = s.echoed ++ if line = [] then [] else [0x14] := by
  have hor := s.msgInputLen.or_eq_zero_iff
  rw [h.len] at hor
  unfold rilDel
  by_cases hempty : line = []
  · subst hempty
    rw [if_pos (hor.mpr rfl), if_pos rfl, List.append_nil]
    exact ⟨⟨h.len, h.room, h.text⟩, .of_eq rfl rfl, rfl⟩
  · have hpos : 0 < line.length := List.length_pos_of_ne_nil hempty
    have hdec := Cell16.toNat_dec (c := s.msgInputLen) (by rw [h.len]; exact hpos)
    rw [if_neg (mt hor.mp hpos.ne'), if_neg hempty]
    refine ⟨⟨?_, ?_, ?_⟩, .of_eq rfl rfl, rfl⟩
    · rw [h.len] at hdec
      rw [List.length_dropLast]
      exact Nat.eq_sub_of_add_eq hdec
    · rw [List.length_dropLast]
      exact (Nat.sub_le _ _).trans h.room
    · have hfirst : (List.range line.length).dropLast = List.range (line.length - 1) := by
        rw [← Nat.sub_add_cancel hpos, List.range_succ, List.dropLast_concat]
        rfl
      rw [List.length_dropLast, ← hfirst, List.map_dropLast]
      exact congrArg List.dropLast h.text

/-- **One pass of the loop is one edit.** -/
theorem rilLoop_typed (h : Typed lay line s) {key : Getin} (hkey : key.a ≠ 0x0d) :
    (rilLoop lay clobber key s).1 = false ∧
      Typed lay (editLine (msgTextMax lay.build) line key.a) (rilLoop lay clobber key s).2 ∧
      InSlot lay s (rilLoop lay clobber key s).2 ∧
      (rilLoop lay clobber key s).2.echoed =
        s.echoed ++ editEcho (msgTextMax lay.build) line key.a := by
  have hmax : msgTextMax lay.build < 65536 := by
    have := lay.inRange
    have := lay.build.wgMtu_ge
    simp only [msgTextMax, ipUdpHdrLen]
    omega
  have hlt := Cell16.lt_iff (c := s.msgInputLen) hmax
  rw [h.len] at hlt
  have hload : InSlot lay s { s with a := key.a, x := key.x, y := key.y } := .of_eq rfl rfl
  have htyped : Typed lay line { s with a := key.a, x := key.x, y := key.y } :=
    ⟨h.len, h.room, h.text⟩
  have hpark : ∀ b, Typed lay line
      { s with a := b, x := key.x, y := key.y, zpTmp1 := key.a } := fun b => ⟨h.len, h.room, h.text⟩
  have hpark' : ∀ b, InSlot lay s
      { s with a := b, x := key.x, y := key.y, zpTmp1 := key.a } := fun b => .of_eq rfl rfl
  simp only [rilLoop, editLine, editEcho, if_neg hkey]
  by_cases hzero : key.a = 0
  · simp only [if_pos hzero, List.append_nil]
    exact ⟨trivial, htyped, hload, trivial⟩
  simp only [if_neg hzero]
  by_cases hdel : key.a = 0x14
  · simp only [if_pos hdel]
    obtain ⟨hline, hslot, hecho⟩ := rilDel_typed clobber htyped
    exact ⟨trivial, hline, hload.trans hslot, hecho⟩
  simp only [if_neg hdel]
  have hstore : ∀ b, line.length < msgTextMax lay.build →
      let t := rilStore lay clobber { s with a := b, x := key.x, y := key.y, zpTmp1 := key.a }
      Typed lay (line ++ [key.a]) t ∧ InSlot lay s t ∧ t.echoed = s.echoed ++ [key.a] := by
    intro b hroom t
    obtain ⟨hline, hslot, hecho⟩ := rilStore_typed clobber (hpark b) hroom
    exact ⟨hline, (hpark' b).trans hslot, hecho⟩
  -- the comparison of two bytes decides as that of the lengths
  by_cases hhi : s.msgInputLen.hi < hi (msgTextMax lay.build)
  · have hroom := hlt.mp (.inl hhi)
    simp only [if_pos hhi, if_pos hroom]
    exact ⟨trivial, hstore _ hroom⟩
  by_cases hne : s.msgInputLen.hi = hi (msgTextMax lay.build)
  · by_cases hlo : s.msgInputLen.lo < lo (msgTextMax lay.build)
    · have hroom := hlt.mp (.inr ⟨hne, hlo⟩)
      simp only [if_neg hhi, if_neg (not_not.mpr hne), if_neg (UInt8.not_le.mpr hlo), if_pos hroom]
      exact ⟨trivial, hstore _ hroom⟩
    · have hfull := mt hlt.mpr (by simp [hhi, hlo])
      simp only [if_neg hhi, if_neg (not_not.mpr hne), if_pos (UInt8.not_lt.mp hlo), if_neg hfull,
        List.append_nil]
      exact ⟨trivial, hpark _, hpark' _, trivial⟩
  · have hfull := mt hlt.mpr (by simp [hhi, hne])
    simp only [if_neg hhi, if_pos hne, if_neg hfull, List.append_nil]
    exact ⟨trivial, hpark _, hpark' _, trivial⟩

/-! ## A line -/

/-- **Passes of the loop are the edits**, after any keys that hold no RETURN. -/
theorem rilLoops_typed (h : Typed lay line s) {keys : List Getin} (hkeys : ∀ k ∈ keys, k.a ≠ 0x0d)
    (rest : List Getin) :
    ∃ t, rilLoops lay clobber (keys ++ rest) s = rilLoops lay clobber rest t ∧
      Typed lay ((keys.map (·.a)).foldl (editLine (msgTextMax lay.build)) line) t ∧ InSlot lay s t ∧
      t.echoed = s.echoed ++ lineEcho (msgTextMax lay.build) line (keys.map (·.a)) := by
  induction keys generalizing s line with
  | nil => exact ⟨s, rfl, h, .of_eq rfl rfl, (List.append_nil _).symm⟩
  | cons key keys ih =>
    obtain ⟨hgo, hline, hslot, hecho⟩ :=
      rilLoop_typed clobber h (hkeys key List.mem_cons_self)
    obtain ⟨t, hrun, hline', hslot', hecho'⟩ :=
      ih hline fun k hk => hkeys k (List.mem_cons_of_mem _ hk)
    refine ⟨t, ?_, hline', hslot.trans hslot', ?_⟩
    · rw [List.cons_append, rilLoops, if_neg (by simp [hgo]), hrun]
    · rw [hecho', hecho, List.append_assoc, List.map_cons, lineEcho]

/-! ## The machine's line -/

/-- The cells of the machine hold `line`. -/
structure IpMem.Holds (build : Build) (line : List UInt8) (ip : IpMem) : Prop where
  len : ip.msgInputLen = line.length
  room : line.length ≤ msgTextMax build
  text : (List.range line.length).map (fun i => byte ip.ipPacketBuf (ipUdpHdrLen + i)) = line

theorem readInputKey_line {build : Build} {ip : IpMem} (h : ip.Holds build line) (key : UInt8) :
    (readInputKey build ip key).1.Holds build (editLine (msgTextMax build) line key) ∧
      (readInputKey build ip key).2 = editEcho (msgTextMax build) line key := by
  have hmtu := build.wgMtu_ge
  have hmtu' := build.wgMtu_le
  have hlen := h.len
  unfold readInputKey editLine editEcho
  by_cases hzero : key = 0
  · simp only [if_pos hzero]
    exact ⟨h, trivial⟩
  simp only [if_neg hzero]
  by_cases hdel : key = 0x14
  · simp only [if_pos hdel]
    by_cases hempty : line = []
    · subst hempty
      rw [if_pos (show ip.msgInputLen = 0 from hlen), if_pos rfl]
      exact ⟨h, rfl⟩
    · have hpos : 0 < line.length := List.length_pos_of_ne_nil hempty
      rw [if_neg (show ¬ ip.msgInputLen = 0 by omega), if_neg hempty]
      refine ⟨⟨?_, ?_, ?_⟩, rfl⟩
      · rw [List.length_dropLast, ← hlen]
      · rw [List.length_dropLast]
        exact (Nat.sub_le _ _).trans h.room
      · have hfirst : (List.range line.length).dropLast = List.range (line.length - 1) := by
          rw [← Nat.sub_add_cancel hpos, List.range_succ, List.dropLast_concat]
          rfl
        rw [List.length_dropLast, ← hfirst, List.map_dropLast]
        exact congrArg List.dropLast h.text
  simp only [if_neg hdel]
  by_cases hroom : line.length < msgTextMax build
  · rw [if_neg (show ¬ msgTextMax build ≤ ip.msgInputLen by omega), if_pos hroom, if_pos hroom]
    refine ⟨⟨?_, ?_, ?_⟩, rfl⟩
    · rw [List.length_append, List.length_singleton, ← hlen]
    · rw [List.length_append, List.length_singleton]
      exact hroom
    · simp only [msgTextMax, ipUdpHdrLen] at hroom
      have hput : ∀ i ≤ line.length, byte (put ip.ipPacketBuf (ipUdpHdrLen + ip.msgInputLen) key)
          (ipUdpHdrLen + i) =
            if i = line.length then key else byte ip.ipPacketBuf (ipUdpHdrLen + i) := by
        intro i hi
        have hin : ipUdpHdrLen + i < udpRecvBufSize := by
          simp only [ipUdpHdrLen]
          omega
        rw [byte_put, hlen]
        simp only [hin, and_true, Nat.add_left_cancel_iff]
      rw [List.length_append, List.length_singleton, List.range_succ, List.map_append,
        List.map_singleton, hput _ le_rfl, if_pos rfl]
      refine congrArg (· ++ [key]) (.trans ?_ h.text)
      refine List.map_congr_left fun i hi => ?_
      have hlt := List.mem_range.mp hi
      rw [hput i hlt.le, if_neg hlt.ne]
  · rw [if_pos (show msgTextMax build ≤ ip.msgInputLen by omega), if_neg hroom, if_neg hroom]
    exact ⟨h, rfl⟩

/-- The loop of the machine makes the same edits and echoes. -/
theorem readInputLoop_line {build : Build} {ip : IpMem} (h : ip.Holds build line)
    (keys : List UInt8) :
    (readInputLoop build keys ip).1.Holds build (keys.foldl (editLine (msgTextMax build)) line) ∧
      (readInputLoop build keys ip).2 = lineEcho (msgTextMax build) line keys ++ [0x0d] := by
  induction keys generalizing ip line with
  | nil => exact ⟨h, rfl⟩
  | cons key keys ih =>
    obtain ⟨hline, hecho⟩ := readInputKey_line h key
    obtain ⟨hline', hecho'⟩ := ih hline
    refine ⟨hline', ?_⟩
    rw [readInputLoop, lineEcho, List.append_assoc, ← hecho, ← hecho']

theorem readInputCells_typed (lay : InputLayout) (clobber : UInt8 → UInt8 × UInt8)
    {keys : List Getin} {ret : Getin} (hkeys : ∀ k ∈ keys, k.a ≠ 0x0d) (hret : ret.a = 0x0d)
    (s : InputState) :
    ∃ t, readInputCells lay clobber (keys ++ [ret]) s = some t ∧
      Typed lay ((keys.map (·.a)).foldl (editLine (msgTextMax lay.build)) []) t ∧ InSlot lay s t ∧
      t.echoed = s.echoed ++ lineEcho (msgTextMax lay.build) [] (keys.map (·.a)) ++ [0x0d] := by
  have hstart : Typed lay [] { s with a := 0, msgInputLen := ⟨0, 0⟩ } := ⟨rfl, Nat.zero_le _, rfl⟩
  have hload : InSlot lay s { s with a := 0, msgInputLen := ⟨0, 0⟩ } := .of_eq rfl rfl
  obtain ⟨t, hrun, hline, hslot, hecho⟩ := rilLoops_typed clobber hstart hkeys [ret]
  have hlast : rilLoops lay clobber [ret] t =
      some { t with a := ret.a, x := ret.x, y := ret.y } := by
    simp [rilLoops, rilLoop, hret]
  refine ⟨_, by rw [readInputCells, hrun, hlast, Option.map_some], ?_, ?_, ?_⟩
  · exact ⟨hline.len, hline.room, hline.text⟩
  · exact (hload.trans hslot).trans (.of_eq rfl rfl)
  · exact congrArg (· ++ [0x0d]) hecho

/-- **`read_input_line`.** On every sequence of `GETIN` results up to the first RETURN it returns. The
cells then hold the line that the keys fold to, from an empty one; it echoed what the edits echo and a
RETURN; it stored to the payload slot only; and after any of the keys all of this holds of the line
typed until then. -/
theorem readInputCells_line (lay : InputLayout) (clobber : UInt8 → UInt8 × UInt8)
    {keys : List Getin} {ret : Getin} (hkeys : ∀ k ∈ keys, k.a ≠ 0x0d) (hret : ret.a = 0x0d)
    (s : InputState) :
    (∃ t, readInputCells lay clobber (keys ++ [ret]) s = some t ∧
      Typed lay ((keys.map (·.a)).foldl (editLine (msgTextMax lay.build)) []) t ∧ InSlot lay s t ∧
      t.echoed = s.echoed ++ lineEcho (msgTextMax lay.build) [] (keys.map (·.a)) ++ [0x0d]) ∧
    ∀ done todo, keys = done ++ todo →
      ∃ t, readInputCells lay clobber (keys ++ [ret]) s =
          (rilLoops lay clobber (todo ++ [ret]) t).map
            (fun t => ({ t with a := 0x0d } : InputState).chrout clobber) ∧
        Typed lay ((done.map (·.a)).foldl (editLine (msgTextMax lay.build)) []) t ∧ InSlot lay s t ∧
        t.echoed = s.echoed ++ lineEcho (msgTextMax lay.build) [] (done.map (·.a)) := by
  refine ⟨readInputCells_typed lay clobber hkeys hret s, ?_⟩
  rintro done todo rfl
  have hstart : Typed lay [] { s with a := 0, msgInputLen := ⟨0, 0⟩ } := ⟨rfl, Nat.zero_le _, rfl⟩
  have hload : InSlot lay s { s with a := 0, msgInputLen := ⟨0, 0⟩ } := .of_eq rfl rfl
  obtain ⟨t, hrun, hline, hslot, hecho⟩ := rilLoops_typed clobber hstart
    (fun k hk => hkeys k (List.mem_append_left _ hk)) (todo ++ [ret])
  exact ⟨t, by rw [readInputCells, List.append_assoc, hrun], hline, hload.trans hslot, hecho⟩

/-- `HO`: a pause, a letter taken back, RETURN. -/
theorem readInputCells_line_ho :
    let lay : InputLayout := ⟨⟨548, by decide, by decide, false, #v[0xca, 0x6c]⟩, 0x9000, by decide⟩
    let keys := [⟨0x48, 1, 0x48⟩, ⟨0, 0, 0⟩, ⟨0x49, 2, 0x49⟩, ⟨0x14, 1, 0x14⟩, ⟨0x4f, 1, 0x4f⟩]
    let start := ⟨0, 0, 0, 0, ⟨0, 0⟩, ⟨0xff, 0xff⟩, fun _ => 0, [], []⟩
    ∃ t, readInputCells lay (fun _ => (0, 0)) (keys ++ [⟨0x0d, 1, 0x0d⟩]) start = some t ∧
      t.msgInputLen.toNat = 2 ∧ [t.ram 0x901c, t.ram 0x901d] = [0x48, 0x4f] ∧
      t.echoed = [0x48, 0x49, 0x14, 0x4f, 0x0d] := by
  intro lay keys start
  have hkeys : ∀ k ∈ keys, k.a ≠ 0x0d := by decide
  have hret : (⟨0x0d, 1, 0x0d⟩ : Getin).a = 0x0d := rfl
  obtain ⟨t, hrun, hline, -, hecho⟩ :=
    (readInputCells_line lay (fun _ => (0, 0)) hkeys hret start).1
  have hfold : (keys.map (·.a)).foldl (editLine (msgTextMax lay.build)) [] = [0x48, 0x4f] := by
    decide
  rw [hfold] at hline
  exact ⟨t, hrun, hline.len, hline.text, hecho⟩

/-- **The cells do what the machine's loop does**: the same length, the same text, the same echo. -/
theorem readInputCells_refines (lay : InputLayout) (clobber : UInt8 → UInt8 × UInt8)
    {keys : List Getin} {ret : Getin} (hkeys : ∀ k ∈ keys, k.a ≠ 0x0d) (hret : ret.a = 0x0d)
    (s : InputState) (ip : IpMem) :
    let r := readInputLoop lay.build (keys.map (·.a)) { ip with msgInputLen := 0 }
    ∃ t, readInputCells lay clobber (keys ++ [ret]) s = some t ∧
      t.msgInputLen.toNat = r.1.msgInputLen ∧
      (∀ i < r.1.msgInputLen, t.ram (lay.ipPacketBuf + ipUdpHdrLen + i) =
        byte r.1.ipPacketBuf (ipUdpHdrLen + i)) ∧
      t.echoed = s.echoed ++ r.2 := by
  intro r
  obtain ⟨t, hrun, hline, -, hecho⟩ := readInputCells_typed lay clobber hkeys hret s
  have hempty : IpMem.Holds lay.build [] { ip with msgInputLen := 0 } := ⟨rfl, Nat.zero_le _, rfl⟩
  obtain ⟨hmodel, hmodelEcho⟩ := readInputLoop_line hempty (keys.map (·.a))
  refine ⟨t, hrun, hline.len.trans hmodel.len.symm, ?_, ?_⟩
  · intro i hi
    rw [show r.1.msgInputLen = _ from hmodel.len] at hi
    have heq := hline.text.trans hmodel.text.symm
    exact List.map_inj_left.mp heq i (List.mem_range.mpr hi)
  · rw [hecho, List.append_assoc, ← hmodelEcho]

end C64WireGuard
