import Mathlib.Tactic.Ring
import Mathlib.Tactic.Linarith
import Mathlib.Tactic.IntervalCases
import Mathlib.Data.List.OfFn

/-!
# Fixed-size byte buffers

A buffer of `n` bytes is a `Vector UInt8 n`. Routines move data between buffers by offset, so the
whole interface is built on three operations:

* `Bytes.byte` — read one offset (zero past the end, so that reads need no side condition);
* `Bytes.slice` — a run of bytes as a buffer of its own;
* `Bytes.copyIn` — overwrite a run of bytes.

Every fact about them is proved from `byte`, through `Bytes.ext_byte`.
-/

/-- A buffer of `n` bytes. -/
abbrev Bytes (n : Nat) := Vector UInt8 n

namespace Bytes

variable {n m k : Nat}

/-! ## Reading -/

/-- The byte at offset `i`, zero past the end. -/
def byte (b : Bytes n) (i : Nat) : UInt8 := b[i]?.getD 0

theorem byte_of_lt (b : Bytes n) {i : Nat} (h : i < n) : byte b i = b[i] := by
  simp [byte, h]

theorem byte_of_ge (b : Bytes n) {i : Nat} (h : n ≤ i) : byte b i = 0 := by
  simp [byte, h]

/-- Two buffers are equal when they agree at every offset. -/
theorem ext_byte {a b : Bytes n} (h : ∀ i, i < n → byte a i = byte b i) : a = b := by
  apply Vector.ext
  intro i hi
  have := h i hi
  rwa [byte_of_lt a hi, byte_of_lt b hi] at this

/-- The buffer whose byte at offset `i` is `f i`. Irreducible: unification compares buffers by
their operations and never unrolls them. -/
@[irreducible] def tabulate (n : Nat) (f : Nat → UInt8) : Bytes n := Vector.ofFn fun i => f i

@[simp] theorem byte_tabulate (f : Nat → UInt8) (i : Nat) :
    byte (tabulate n f) i = if i < n then f i else 0 := by
  by_cases h : i < n
  · simp [byte_of_lt _ h, tabulate, h]
  · simp [byte_of_ge _ (Nat.le_of_not_lt h), h]

theorem tabulate_byte (b : Bytes n) : tabulate n (byte b) = b := by
  apply ext_byte
  intro i hi
  simp [hi]

/-- A buffer of zeros. -/
def zero (n : Nat) : Bytes n := tabulate n fun _ => 0

@[simp] theorem byte_zero (i : Nat) : byte (zero n) i = 0 := by
  simp [zero]

/-- Write one byte; a write past the end changes nothing. -/
def put (b : Bytes n) (i : Nat) (v : UInt8) : Bytes n :=
  tabulate n fun j => if j = i then v else byte b j

@[simp] theorem byte_put (b : Bytes n) (i j : Nat) (v : UInt8) :
    byte (put b i v) j = if j = i ∧ j < n then v else byte b j := by
  by_cases hj : j < n
  · simp [put, hj]
  · simp [put, hj, byte_of_ge b (Nat.le_of_not_lt hj)]

/-! ## Lists of bytes -/

/-- The first `n` bytes of a list, zero-padded. -/
def ofList (n : Nat) (l : List UInt8) : Bytes n := tabulate n fun i => l.getD i 0

@[simp] theorem byte_ofList (l : List UInt8) (i : Nat) :
    byte (ofList n l) i = if i < n then l.getD i 0 else 0 := by
  simp [ofList]

theorem getD_toList (b : Bytes n) (i : Nat) : b.toList.getD i 0 = byte b i := by
  by_cases h : i < n
  · simp [byte_of_lt b h, List.getD_eq_getElem?_getD, h]
  · simp [byte_of_ge b (Nat.le_of_not_lt h), List.getD_eq_getElem?_getD, h]

@[simp] theorem ofList_toList (b : Bytes n) : ofList n b.toList = b := by
  apply ext_byte
  intro i hi
  rw [byte_ofList, if_pos hi, getD_toList]

/-- A list of the right length survives the trip through a buffer. -/
theorem toList_ofList {l : List UInt8} (h : l.length = n) : (ofList n l).toList = l := by
  apply List.ext_getElem
  · simp [h]
  · intro i h₁ h₂
    have hi : i < n := by simpa using h₁
    have hb : byte (ofList n l) i = l[i] := by
      rw [byte_ofList, if_pos hi, List.getD_eq_getElem?_getD]
      simp [h₂]
    rw [byte_of_lt _ hi] at hb
    simpa using hb

theorem toList_inj {a b : Bytes n} : a.toList = b.toList ↔ a = b := by
  constructor
  · intro h
    rw [← ofList_toList a, h, ofList_toList]
  · rintro rfl
    rfl

theorem toList_zero : (zero n).toList = List.replicate n 0 := by
  apply List.ext_getElem
  · simp
  · intro i h₁ h₂
    have hi : i < n := by simpa using h₁
    have hb := byte_zero (n := n) i
    rw [byte_of_lt _ hi] at hb
    simpa using hb

/-! ## Runs of bytes -/

/-- The `m` bytes from offset `off` on. -/
def slice (b : Bytes n) (off m : Nat) : Bytes m := tabulate m fun i => byte b (off + i)

@[simp] theorem byte_slice (b : Bytes n) (off i : Nat) :
    byte (slice b off m) i = if i < m then byte b (off + i) else 0 := by
  simp [slice]

/-- Overwrite the bytes from offset `off` on with `src`. -/
def copyIn (dst : Bytes n) (off : Nat) (src : Bytes m) : Bytes n :=
  tabulate n fun i => if off ≤ i ∧ i < off + m then byte src (i - off) else byte dst i

@[simp] theorem byte_copyIn (dst : Bytes n) (off i : Nat) (src : Bytes m) :
    byte (copyIn dst off src) i =
      if off ≤ i ∧ i < off + m ∧ i < n then byte src (i - off) else byte dst i := by
  by_cases hi : i < n
  · simp [copyIn, hi]
  · simp [copyIn, hi, byte_of_ge dst (Nat.le_of_not_lt hi)]

/-- Reading back what was just written. -/
theorem slice_copyIn_self (dst : Bytes n) {off : Nat} (src : Bytes m) (h : off + m ≤ n) :
    slice (copyIn dst off src) off m = src := by
  apply ext_byte
  intro i hi
  have hlt : off + i < n := by omega
  simp [hi, hlt]

/-- A write does not disturb a disjoint run. -/
theorem slice_copyIn_disjoint (dst : Bytes n) {off off' : Nat} (src : Bytes m)
    (h : off + m ≤ off' ∨ off' + k ≤ off) :
    slice (copyIn dst off src) off' k = slice dst off' k := by
  apply ext_byte
  intro i hi
  have hout : ¬ (off ≤ off' + i ∧ off' + i < off + m ∧ off' + i < n) := by omega
  simp only [byte_slice, byte_copyIn, if_pos hi, if_neg hout]

theorem slice_slice (b : Bytes n) (off : Nat) {off' : Nat} (h : off' + k ≤ m) :
    slice (slice b off m) off' k = slice b (off + off') k := by
  apply ext_byte
  intro i hi
  have hlt : off' + i < m := by omega
  simp [hi, hlt, Nat.add_assoc]

@[simp] theorem slice_self (b : Bytes n) : slice b 0 n = b := by
  apply ext_byte
  intro i hi
  simp [hi]

theorem toList_slice (b : Bytes n) {off : Nat} (h : off + m ≤ n) :
    (slice b off m).toList = (b.toList.drop off).take m := by
  apply List.ext_getElem
  · simp; omega
  · intro i h₁ h₂
    have hi : i < m := by simpa using h₁
    have hb : byte (slice b off m) i = byte b (off + i) := by simp [hi]
    rw [byte_of_lt _ hi, byte_of_lt _ (by omega)] at hb
    simpa using hb

/-- A list at the front of a buffer. -/
theorem toList_slice_ofList {l : List UInt8} (hlen : l.length = k) (h : k ≤ n) :
    (slice (ofList n l) 0 k).toList = l := by
  have hslice : slice (ofList n l) 0 k = ofList k l := by
    apply ext_byte
    intro i hi
    rw [byte_slice, byte_ofList, byte_ofList, if_pos hi, if_pos hi, if_pos (by omega), Nat.zero_add]
  rw [hslice, toList_ofList hlen]

/-- A run splits at any point. -/
theorem toList_slice_add (b : Bytes n) {off : Nat} (h : off + (m + k) ≤ n) :
    (slice b off (m + k)).toList = (slice b off m).toList ++ (slice b (off + m) k).toList := by
  rw [toList_slice b h, toList_slice b (by omega), toList_slice b (by omega), List.take_add,
    List.drop_drop]

/-- A field of a buffer that is laid out one field behind the other. -/
theorem slice_of_toList {b : Bytes n} {field : Bytes m} (before behind : List UInt8)
    (h : b.toList = before ++ field.toList ++ behind) {off : Nat} (hoff : before.length = off) :
    slice b off m = field := by
  have hlen := congrArg List.length h
  simp only [List.length_append, Vector.length_toList] at hlen
  apply toList_inj.mp
  rw [toList_slice b (by omega), h, List.append_assoc, List.drop_left' hoff,
    List.take_left' Vector.length_toList]

/-- The bytes of a run, one by one. -/
theorem toList_slice_range (b : Bytes n) (off m : Nat) :
    (slice b off m).toList = (List.range m).map fun i => byte b (off + i) := by
  apply List.ext_getElem
  · simp
  · intro i h₁ h₂
    have hi : i < m := by simpa using h₁
    have hb := byte_slice (m := m) b off i
    rw [if_pos hi, byte_of_lt _ hi] at hb
    simpa using hb

theorem toList_two (b : Bytes 2) : b.toList = [byte b 0, byte b 1] := by
  have h := toList_slice_range b 0 2
  rw [slice_self] at h
  simpa [List.range_succ] using h

theorem toList_four (b : Bytes 4) : b.toList = [byte b 0, byte b 1, byte b 2, byte b 3] := by
  have h := toList_slice_range b 0 4
  rw [slice_self] at h
  simpa [List.range_succ] using h

/-- A write inside the front of a buffer. -/
theorem slice_copyIn_front (b : Bytes n) (off : Nat) (src : Bytes m) (h : k ≤ n) :
    slice (copyIn b off src) 0 k = copyIn (slice b 0 k) off src := by
  apply ext_byte
  intro i hi
  have hn : i < n := by omega
  simp [hi, hn]

/-- Writing a run back where it was read. -/
theorem copyIn_slice_self (b : Bytes n) (off m : Nat) : copyIn b off (slice b off m) = b := by
  apply ext_byte
  intro i hi
  rw [byte_copyIn]
  split
  · rename_i h
    rw [byte_slice, if_pos (by omega), Nat.add_sub_cancel' h.1]
  · rfl

theorem copyIn_zero_full (dst src : Bytes n) : copyIn dst 0 src = src := by
  apply ext_byte
  intro i hi
  simp [hi]

/-! ## Copying by pages

An 8-bit index reaches one page of 256 bytes, so a longer run is copied page by page and then its
remainder. -/

/-- Copy `pages` whole pages. -/
def copyPages (src : Bytes m) : Nat → Bytes n → Nat → Nat → Bytes n
  | 0, dst, _, _ => dst
  | pages + 1, dst, d, s =>
      copyPages src pages (copyIn dst d (slice src s 256)) (d + 256) (s + 256)

/-- Copy `len` bytes from offset `s` of `src` to offset `d` of `dst`: whole pages first. -/
def copy16 (dst : Bytes n) (d : Nat) (src : Bytes m) (s len : Nat) : Bytes n :=
  copyIn (copyPages src (len / 256) dst d s) (d + 256 * (len / 256))
    (slice src (s + 256 * (len / 256)) (len % 256))

/-- Two adjacent writes of adjacent runs are one write. -/
theorem copyIn_copyIn_slice (dst : Bytes n) (d : Nat) (src : Bytes m) (s a b : Nat) :
    copyIn (copyIn dst d (slice src s a)) (d + a) (slice src (s + a) b) =
      copyIn dst d (slice src s (a + b)) := by
  apply ext_byte
  intro i hi
  simp only [byte_copyIn, byte_slice, hi, and_true]
  by_cases h₁ : d + a ≤ i ∧ i < d + a + b
  · have hoff : s + a + (i - (d + a)) = s + (i - d) := by omega
    rw [if_pos h₁, if_pos (by omega), if_pos (by omega), if_pos (by omega), hoff]
  · rw [if_neg h₁]
    by_cases h₂ : d ≤ i ∧ i < d + a
    · rw [if_pos h₂, if_pos (by omega), if_pos (by omega), if_pos (by omega)]
    · rw [if_neg h₂, if_neg (by omega)]

theorem copyPages_eq (src : Bytes m) (pages : Nat) (dst : Bytes n) (d s : Nat) :
    copyPages src pages dst d s = copyIn dst d (slice src s (256 * pages)) := by
  induction pages generalizing dst d s with
  | zero =>
      apply ext_byte
      intro i hi
      rw [copyPages, byte_copyIn, if_neg (by omega)]
  | succ pages ih =>
      rw [copyPages, ih, copyIn_copyIn_slice, Nat.mul_succ, Nat.add_comm]

/-- The page-wise copy is one write. -/
theorem copy16_eq (dst : Bytes n) (d : Nat) (src : Bytes m) (s len : Nat) :
    copy16 dst d src s len = copyIn dst d (slice src s len) := by
  rw [copy16, copyPages_eq, copyIn_copyIn_slice, Nat.div_add_mod]

/-! ## Copying within a buffer

When source and destination are runs of one buffer, each byte is read after those before it have
been written. -/

/-- Copy `len` bytes from offset `s` to offset `d` of one buffer, first byte first. -/
def moveRun : Nat → Nat → Nat → Bytes n → Bytes n
  | _, _, 0, b => b
  | d, s, len + 1, b => moveRun (d + 1) (s + 1) len (put b d (byte b s))

/-- Whole pages of `moveRun`. -/
def movePages : Nat → Nat → Nat → Bytes n → Bytes n
  | _, _, 0, b => b
  | d, s, pages + 1, b => movePages (d + 256) (s + 256) pages (moveRun d s 256 b)

/-- `copy16` within one buffer. -/
def move16 (b : Bytes n) (d s len : Nat) : Bytes n :=
  moveRun (d + 256 * (len / 256)) (s + 256 * (len / 256)) (len % 256) (movePages d s (len / 256) b)

theorem moveRun_add (d s k l : Nat) (b : Bytes n) :
    moveRun d s (k + l) b = moveRun (d + k) (s + k) l (moveRun d s k b) := by
  induction k generalizing d s b with
  | zero => rw [Nat.zero_add, moveRun, Nat.add_zero, Nat.add_zero]
  | succ k ih =>
      have hd : d + (k + 1) = d + 1 + k := by omega
      have hs : s + (k + 1) = s + 1 + k := by omega
      rw [Nat.add_right_comm, moveRun, ih, moveRun, hd, hs]

theorem movePages_eq (d s pages : Nat) (b : Bytes n) :
    movePages d s pages b = moveRun d s (256 * pages) b := by
  induction pages generalizing d s b with
  | zero => rfl
  | succ pages ih => rw [movePages, ih, ← moveRun_add, Nat.mul_succ, Nat.add_comm]

/-- The page-wise copy is one run. -/
theorem move16_eq (b : Bytes n) (d s len : Nat) : move16 b d s len = moveRun d s len b := by
  rw [move16, movePages_eq, ← moveRun_add, Nat.div_add_mod]

/-- A copy towards the front reads every byte before it is overwritten. -/
theorem moveRun_eq {d s len : Nat} (h : d ≤ s) (hbound : s + len ≤ n) (b : Bytes n) :
    moveRun d s len b = copyIn b d (slice b s len) := by
  induction len generalizing d s b with
  | zero =>
      apply ext_byte
      intro i hi
      rw [moveRun, byte_copyIn, if_neg (by omega)]
  | succ len ih =>
      rw [moveRun, ih (by omega) (by omega)]
      apply ext_byte
      intro i hi
      by_cases hfirst : i = d
      · subst hfirst
        simp only [byte_copyIn, byte_put, byte_slice, hi, and_true, Nat.sub_self, Nat.add_zero]
        rw [if_neg (by omega), if_pos trivial, if_pos (by omega), if_pos (by omega)]
      · by_cases hrun : d + 1 ≤ i ∧ i < d + 1 + len
        · have hoff : s + 1 + (i - (d + 1)) = s + (i - d) := by omega
          simp only [byte_copyIn, byte_put, byte_slice, hi, and_true, hoff]
          rw [if_pos hrun, if_pos (by omega), if_neg (by omega), if_pos (by omega),
            if_pos (by omega)]
        · simp only [byte_copyIn, byte_put, hi, and_true]
          rw [if_neg hrun, if_neg hfirst, if_neg (by omega)]

/-- The copy does not disturb what is in front of its destination. -/
theorem slice_moveRun_disjoint {d s len off : Nat} (h : off + k ≤ d) (b : Bytes n) :
    slice (moveRun d s len b) off k = slice b off k := by
  induction len generalizing d s b with
  | zero => rfl
  | succ len ih =>
      rw [moveRun, ih (by omega)]
      apply ext_byte
      intro i hi
      rw [byte_slice, byte_slice, if_pos hi, if_pos hi, byte_put, if_neg (by omega)]

end Bytes
