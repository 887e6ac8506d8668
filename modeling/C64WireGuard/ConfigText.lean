import C64WireGuard.DiskConfig

/-!
# The texts of a configuration file

What each field reader does to a text, told from the text: `readKeyLine` in terms of the number of
hex digits the text begins with (`readKeyLine_spec`), and the decimal readers as left inverses of
the decimal notation (`parseDecimal_decimal`, `parseDecimalIp_dotted`). Every reader is stated with
the text that follows, so that the lines of a file compose.
-/

namespace C64WireGuard

open Bytes

/-! ## Hex digits -/

/-- `0`–`9`, `A`–`F` and `a`–`f`. -/
def IsHex (c : UInt8) : Prop :=
  (0x30 ≤ c ∧ c ≤ 0x39) ∨ (0x41 ≤ c ∧ c ≤ 0x46) ∨ (0x61 ≤ c ∧ c ≤ 0x66)

instance : DecidablePred IsHex := fun _ => inferInstanceAs (Decidable (_ ∨ _))

theorem hexDigit_eq_none_iff (c : UInt8) : hexDigit c = none ↔ ¬ IsHex c := by
  obtain ⟨⟨n⟩⟩ := c
  revert n
  decide +kernel

theorem not_isHex_cr : ¬ IsHex cr := by decide

/-- The value of a hex digit. -/
def hexVal (c : UInt8) : UInt8 := (hexDigit c).getD 0

theorem hexDigit_of_isHex {c : UInt8} (h : IsHex c) : hexDigit c = some (hexVal c) := by
  unfold hexVal
  cases hd : hexDigit c with
  | none => exact absurd h ((hexDigit_eq_none_iff c).mp hd)
  | some d => rfl

/-- The number of hex digits a text begins with. -/
def hexRun (text : List UInt8) : Nat := (text.takeWhile fun c => IsHex c).length

@[simp] theorem hexRun_nil : hexRun [] = 0 := rfl

theorem hexRun_cons (c : UInt8) (text : List UInt8) :
    hexRun (c :: text) = if IsHex c then hexRun text + 1 else 0 := by
  unfold hexRun
  rw [List.takeWhile_cons]
  by_cases hc : IsHex c
  · simp [hc]
  · simp [hc]

/-- A text that begins with a whole key. -/
def IsKeyText (text : List UInt8) : Prop := 64 ≤ text.length ∧ ∀ c ∈ text.take 64, IsHex c

theorem le_hexRun_iff (n : Nat) (text : List UInt8) :
    n ≤ hexRun text ↔ n ≤ text.length ∧ ∀ c ∈ text.take n, IsHex c := by
  induction n generalizing text with
  | zero => simp
  | succ n ih =>
    cases text with
    | nil => simp
    | cons c text =>
      rw [hexRun_cons]
      by_cases hc : IsHex c
      · simp [hc, ih text]
      · simp [hc]

theorem isKeyText_iff (text : List UInt8) : IsKeyText text ↔ 64 ≤ hexRun text :=
  (le_hexRun_iff 64 text).symm

/-! ## Key lines -/

/-- The byte that the hex digits at `2 * i` and `2 * i + 1` spell. -/
def keyByte (text : List UInt8) (i : Nat) : UInt8 :=
  (hexVal (text.getD (2 * i) 0) <<< 4) ||| hexVal (text.getD (2 * i + 1) 0)

theorem keyByte_succ (c d : UInt8) (text : List UInt8) (i : Nat) :
    keyByte (c :: d :: text) (i + 1) = keyByte text i := rfl

/-- The key a text begins with. -/
def keyOf (text : List UInt8) : Bytes 32 := tabulate 32 (keyByte text)

/-- A key buffer after a read that stopped at the first character that is no hex digit: the bytes
both of whose digits came before it, and the old bytes from there on. -/
def keyUpTo (text : List UInt8) (old : Bytes 32) : Bytes 32 :=
  tabulate 32 fun j => if 2 * j + 2 ≤ hexRun text then keyByte text j else byte old j

theorem keyUpTo_of_isKeyText {text : List UInt8} (h : IsKeyText text) (old : Bytes 32) :
    keyUpTo text old = keyOf text := by
  rw [isKeyText_iff] at h
  apply ext_byte
  intro j hj
  rw [keyUpTo, keyOf, byte_tabulate, byte_tabulate, if_pos hj, if_pos hj, if_pos (by omega)]

/-- `hex_to_bytes` goes as far as the hex digits do. -/
theorem hexToBytes_spec (n y : Nat) (buf : Bytes 32) (text : List UInt8) :
    (hexToBytes n y buf text).1 = decide (hexRun text < 2 * n) ∧
    (∀ j < 32, byte (hexToBytes n y buf text).2.1 j =
      if y ≤ j ∧ j < y + n ∧ 2 * (j - y) + 2 ≤ hexRun text then keyByte text (j - y)
      else byte buf j) ∧
    (2 * n ≤ hexRun text → (hexToBytes n y buf text).2.2 = text.drop (2 * n)) := by
  have hcr : hexDigit cr = none := (hexDigit_eq_none_iff cr).mpr not_isHex_cr
  induction n generalizing y buf text with
  | zero =>
    refine ⟨by simp [hexToBytes], fun j _ => ?_, fun _ => by simp [hexToBytes]⟩
    rw [if_neg (by omega)]
    rfl
  | succ n ih =>
    -- A text of fewer than two hex digits stops here, with nothing stored.
    have stop : ∀ rest, hexRun text < 2 → hexToBytes (n + 1) y buf text = (true, buf, rest) →
        (hexToBytes (n + 1) y buf text).1 = decide (hexRun text < 2 * (n + 1)) ∧
        (∀ j < 32, byte (hexToBytes (n + 1) y buf text).2.1 j =
          if y ≤ j ∧ j < y + (n + 1) ∧ 2 * (j - y) + 2 ≤ hexRun text then keyByte text (j - y)
          else byte buf j) ∧
        (2 * (n + 1) ≤ hexRun text →
          (hexToBytes (n + 1) y buf text).2.2 = text.drop (2 * (n + 1))) := by
      intro rest hrun heq
      rw [heq]
      refine ⟨(decide_eq_true (by omega)).symm, fun j _ => ?_, fun h => by omega⟩
      rw [if_neg (by omega)]
    cases text with
    | nil => exact stop [] (by simp) (by simp [hexToBytes, chrin, hcr])
    | cons c text =>
      by_cases hc : IsHex c
      · cases text with
        | nil =>
          refine stop [] (by simp [hexRun_cons, hc]) ?_
          simp [hexToBytes, chrin, hexDigit_of_isHex hc, hcr]
        | cons d text =>
          by_cases hd : IsHex d
          · have hrun : hexRun (c :: d :: text) = hexRun text + 2 := by
              simp [hexRun_cons, hc, hd]
            have hstep : hexToBytes (n + 1) y buf (c :: d :: text) =
                hexToBytes n (y + 1) (put buf y (keyByte (c :: d :: text) 0)) text := by
              simp [hexToBytes, chrin, hexDigit_of_isHex hc, hexDigit_of_isHex hd, keyByte]
            obtain ⟨hcarry, hbyte, hrest⟩ := ih (y + 1) (put buf y (keyByte (c :: d :: text) 0)) text
            rw [hstep, hrun]
            refine ⟨?_, fun j hj => ?_, fun h => ?_⟩
            · rw [hcarry]
              exact decide_eq_decide.mpr (by omega)
            · rw [hbyte j hj]
              by_cases hy : j = y
              · subst hy
                rw [if_neg (by omega), byte_put, if_pos ⟨rfl, hj⟩, if_pos (by omega), Nat.sub_self]
              · have hput : byte (put buf y (keyByte (c :: d :: text) 0)) j = byte buf j := by
                  rw [byte_put, if_neg (fun h => hy h.1)]
                rw [hput]
                by_cases hin : y + 1 ≤ j ∧ j < y + 1 + n ∧ 2 * (j - (y + 1)) + 2 ≤ hexRun text
                · rw [if_pos hin, if_pos (by omega), ← keyByte_succ c d]
                  congr 1
                  omega
                · rw [if_neg hin, if_neg (by omega)]
            · rw [hrest (by omega), Nat.mul_succ]
              rfl
          · refine stop text (by simp [hexRun_cons, hc, hd]) ?_
            simp [hexToBytes, chrin, hexDigit_of_isHex hc, (hexDigit_eq_none_iff d).mpr hd]
      · refine stop text (by simp [hexRun_cons, hc]) ?_
        simp [hexToBytes, chrin, (hexDigit_eq_none_iff c).mpr hc]

theorem chrin_snd (text : List UInt8) : (chrin text).2 = text.drop 1 := by
  cases text <;> rfl

/-- **`read_key_line`** fails when the text does not begin with 64 hex digits. It stores the bytes
the digits spell, and skips one character behind the key, whatever it is. -/
theorem readKeyLine_spec (buf : Bytes 32) (text : List UInt8) :
    ((readKeyLine buf text).1 = true ↔ ¬ IsKeyText text) ∧
    (readKeyLine buf text).2.1 = keyUpTo text buf ∧
    (IsKeyText text → (readKeyLine buf text).2.2 = text.drop 65) := by
  obtain ⟨hcarry, hbyte, hrest⟩ := hexToBytes_spec 32 0 buf text
  rw [isKeyText_iff]
  have hbuf : (hexToBytes 32 0 buf text).2.1 = keyUpTo text buf := by
    apply ext_byte
    intro j hj
    rw [hbyte j hj, keyUpTo, byte_tabulate, if_pos hj]
    by_cases hin : 2 * j + 2 ≤ hexRun text
    · rw [if_pos hin, if_pos (by omega), Nat.sub_zero]
    · rw [if_neg hin, if_neg (by omega)]
  by_cases h : 64 ≤ hexRun text
  · rw [decide_eq_false (by omega)] at hcarry
    have heq : readKeyLine buf text = (false, keyUpTo text buf, text.drop 65) := by
      simp only [readKeyLine, hcarry, hbuf, chrin_snd, hrest (by omega), List.drop_drop]
      rfl
    rw [heq]
    exact ⟨by simp [h], rfl, fun _ => rfl⟩
  · rw [decide_eq_true (by omega)] at hcarry
    have heq : readKeyLine buf text = hexToBytes 32 0 buf text := by
      simp only [readKeyLine, hcarry, if_true]
    rw [heq]
    exact ⟨by simp [hcarry, h], hbuf, fun h' => absurd h' h⟩

/-! ## Hex notation -/

/-- The digit of a value below 16, in the given case. -/
def hexChar (upper : Bool) (d : UInt8) : UInt8 :=
  if d < 10 then 0x30 + d else if upper then 0x41 + (d - 10) else 0x61 + (d - 10)

/-- The digits of a key; `upper` chooses the case of each. -/
def hexLine (upper : Nat → Bool) (key : Bytes 32) : List UInt8 :=
  (List.range 64).map fun i =>
    hexChar (upper i) (if i % 2 = 0 then byte key (i / 2) >>> 4 else byte key (i / 2) &&& 0x0f)

theorem hexDigit_hexChar (upper : Bool) {d : UInt8} (h : d < 16) :
    hexDigit (hexChar upper d) = some d := by
  obtain ⟨⟨n⟩⟩ := d
  revert upper n
  decide +kernel

theorem nibbles_lt (b : UInt8) : b >>> 4 < 16 ∧ b &&& 0x0f < 16 := by
  obtain ⟨⟨n⟩⟩ := b
  revert n
  decide +kernel

theorem nibbles_or (b : UInt8) : ((b >>> 4) <<< 4) ||| (b &&& 0x0f) = b := by
  obtain ⟨⟨n⟩⟩ := b
  revert n
  decide +kernel

theorem length_hexLine (upper : Nat → Bool) (key : Bytes 32) : (hexLine upper key).length = 64 := by
  simp [hexLine]

theorem hexDigit_hexLine (upper : Nat → Bool) (key : Bytes 32) (text : List UInt8) {i : Nat}
    (h : i < 64) :
    hexDigit ((hexLine upper key ++ text).getD i 0) =
      some (if i % 2 = 0 then byte key (i / 2) >>> 4 else byte key (i / 2) &&& 0x0f) := by
  have hget : (hexLine upper key ++ text).getD i 0 =
      hexChar (upper i)
        (if i % 2 = 0 then byte key (i / 2) >>> 4 else byte key (i / 2) &&& 0x0f) := by
    rw [List.getD_eq_getElem?_getD, List.getElem?_append_left (by rw [length_hexLine]; exact h)]
    simp [hexLine, h]
  rw [hget, hexDigit_hexChar]
  split
  · exact (nibbles_lt _).1
  · exact (nibbles_lt _).2

theorem isKeyText_hexLine (upper : Nat → Bool) (key : Bytes 32) (text : List UInt8) :
    IsKeyText (hexLine upper key ++ text) := by
  refine ⟨by simp [length_hexLine], fun c hc => ?_⟩
  obtain ⟨i, hi, rfl⟩ := List.getElem_of_mem hc
  have hi' : i < 64 := by
    rw [List.length_take] at hi
    omega
  have hd := hexDigit_hexLine upper key text hi'
  rw [List.getD_eq_getElem?_getD, List.getElem?_eq_getElem (by simp [length_hexLine]; omega),
    Option.getD_some] at hd
  rw [List.getElem_take]
  by_contra hnot
  rw [(hexDigit_eq_none_iff _).mpr hnot] at hd
  cases hd

theorem keyOf_hexLine (upper : Nat → Bool) (key : Bytes 32) (text : List UInt8) :
    keyOf (hexLine upper key ++ text) = key := by
  apply ext_byte
  intro j hj
  rw [keyOf, byte_tabulate, if_pos hj, keyByte, hexVal, hexVal,
    hexDigit_hexLine upper key text (by omega), hexDigit_hexLine upper key text (by omega),
    if_pos (by omega), if_neg (by omega), Option.getD_some, Option.getD_some,
    Nat.mul_div_cancel_left j (by decide), show (2 * j + 1) / 2 = j by omega, nibbles_or]

/-! ## Decimal fields -/

/-- The decimal notation of a number, without leading zeros. -/
def decimal (n : Nat) : List UInt8 := (Nat.toDigits 10 n).map fun c => UInt8.ofNat c.toNat

theorem toNat_digitChar {d : Nat} (h : d < 10) : (Nat.digitChar d).toNat = 0x30 + d := by
  interval_cases d <;> rfl

theorem decimal_of_lt {n : Nat} (h : n < 10) : decimal n = [UInt8.ofNat (0x30 + n)] := by
  rw [decimal, Nat.toDigits_of_lt_base h, List.map_singleton, toNat_digitChar h]

theorem decimal_of_ge {n : Nat} (h : 10 ≤ n) :
    decimal n = decimal (n / 10) ++ [UInt8.ofNat (0x30 + n % 10)] := by
  have hd : n % 10 < 10 := Nat.mod_lt _ (by decide)
  have happ := Nat.toDigits_append_toDigits (b := 10) (n := n / 10) (d := n % 10) (by decide)
    (by omega) hd
  rw [Nat.div_add_mod, Nat.toDigits_of_lt_base hd] at happ
  rw [decimal, ← happ, List.map_append, List.map_singleton, toNat_digitChar hd, decimal]

theorem decimal_ne_nil (n : Nat) : decimal n ≠ [] := by
  by_cases h : n < 10
  · simp [decimal_of_lt h]
  · simp [decimal_of_ge (Nat.le_of_not_lt h)]

/-- A digit ends no field and carries its value. -/
theorem digit_facts {d : Nat} (h : d < 10) :
    UInt8.ofNat (0x30 + d) ≠ cr ∧ UInt8.ofNat (0x30 + d) ≠ 0x2e ∧
    UInt8.ofNat (0x30 + d) - 0x30 = UInt8.ofNat d := by
  interval_cases d <;> decide

/-- The number readers read a number back, up to their width. -/
theorem parseDecimal_decimal (modulus n : Nat) (rest : List UInt8) :
    parseDecimal modulus (decimal n ++ rest) 0 = parseDecimal modulus rest (n % modulus) := by
  have step : ∀ acc d, d < 10 → ∀ rest,
      parseDecimal modulus (UInt8.ofNat (0x30 + d) :: rest) acc =
        parseDecimal modulus rest ((10 * acc + d) % modulus) := by
    intro acc d hd rest
    obtain ⟨hcr, -, hval⟩ := digit_facts hd
    rw [parseDecimal, if_neg hcr, hval, UInt8.toNat_ofNat_of_lt' (show d < 256 by omega)]
  induction n using Nat.strongRecOn generalizing rest with
  | ind n ih =>
    by_cases h : n < 10
    · rw [decimal_of_lt h, List.singleton_append, step 0 n h, Nat.mul_zero, Nat.zero_add]
    · rw [decimal_of_ge (by omega), List.append_assoc, ih (n / 10) (by omega), List.singleton_append,
        step _ _ (Nat.mod_lt _ (by decide))]
      congr 1
      rw [Nat.add_mod, Nat.mul_mod, Nat.mod_mod, ← Nat.mul_mod, ← Nat.add_mod, Nat.div_add_mod]

/-- The octet reader reads an octet back. -/
theorem parseOctet_decimal (n : Nat) (rest : List UInt8) :
    parseOctet (decimal n ++ rest) 0 = parseOctet rest (UInt8.ofNat n) := by
  have step : ∀ acc d, d < 10 → ∀ rest,
      parseOctet (UInt8.ofNat (0x30 + d) :: rest) acc = parseOctet rest (10 * acc + UInt8.ofNat d) := by
    intro acc d hd rest
    obtain ⟨hcr, hdot, hval⟩ := digit_facts hd
    rw [parseOctet, if_neg (not_or.mpr ⟨hdot, hcr⟩), hval]
  induction n using Nat.strongRecOn generalizing rest with
  | ind n ih =>
    by_cases h : n < 10
    · rw [decimal_of_lt h, List.singleton_append, step 0 n h]
      simp
    · rw [decimal_of_ge (by omega), List.append_assoc, ih (n / 10) (by omega), List.singleton_append,
        step _ _ (Nat.mod_lt _ (by decide))]
      congr 1
      rw [show (10 : UInt8) = UInt8.ofNat 10 from rfl, ← UInt8.ofNat_mul, ← UInt8.ofNat_add,
        Nat.div_add_mod]

/-- Dotted-decimal notation. -/
def dotted (ip : Bytes 4) : List UInt8 :=
  decimal (byte ip 0).toNat ++ 0x2e :: decimal (byte ip 1).toNat ++
    0x2e :: decimal (byte ip 2).toNat ++ 0x2e :: decimal (byte ip 3).toNat

/-- What may follow a field: a carriage return, or nothing when the file ends with the field. -/
inductive Ends : List UInt8 → List UInt8 → Prop
  | cr (rest : List UInt8) : Ends (cr :: rest) rest
  | eof : Ends [] []

theorem parseDecimal_ends {modulus acc : Nat} {text rest : List UInt8} (h : Ends text rest) :
    parseDecimal modulus text acc = (acc, rest) := by
  cases h with
  | cr => simp [parseDecimal]
  | eof => rfl

theorem parseOctet_ends {acc : UInt8} {text rest : List UInt8} (h : Ends text rest) :
    parseOctet text acc = (acc, rest) := by
  cases h with
  | cr => simp [parseOctet]
  | eof => rfl

theorem parseOctet_dot (acc : UInt8) (rest : List UInt8) :
    parseOctet (0x2e :: rest) acc = (acc, rest) := by
  simp [parseOctet]

/-- The address reader reads an address back. -/
theorem parseDecimalIp_dotted (ip : Bytes 4) {text rest : List UInt8} (h : Ends text rest) :
    parseDecimalIp (dotted ip ++ text) = (ip, rest) := by
  simp only [parseDecimalIp, dotted, List.append_assoc, List.cons_append, parseOctet_decimal,
    parseOctet_dot, parseOctet_ends h, UInt8.ofNat_toNat]
  congr 1
  apply ext_byte
  intro i hi
  interval_cases i <;> rfl

/-- A number behind which the field ends. -/
theorem parseDecimal_field {modulus n : Nat} (hn : n < modulus)
    {text rest : List UInt8} (h : Ends text rest) :
    parseDecimal modulus (decimal n ++ text) 0 = (n, rest) := by
  rw [parseDecimal_decimal, parseDecimal_ends h, Nat.mod_eq_of_lt hn]

/-- A key line behind which the field ends. -/
theorem readKeyLine_hexLine (buf : Bytes 32) (upper : Nat → Bool) (key : Bytes 32)
    {text rest : List UInt8} (h : Ends text rest) :
    readKeyLine buf (hexLine upper key ++ text) = (false, key, rest) := by
  obtain ⟨hcarry, hkey, hrest⟩ := readKeyLine_spec buf (hexLine upper key ++ text)
  have htext := isKeyText_hexLine upper key text
  have hdrop : (hexLine upper key ++ text).drop 65 = rest := by
    rw [List.drop_append, List.drop_of_length_le (by simp [length_hexLine]), length_hexLine]
    cases h <;> rfl
  refine Prod.ext ?_ (Prod.ext ?_ ?_)
  · have hok : ¬ (readKeyLine buf (hexLine upper key ++ text)).1 = true := fun h => hcarry.mp h htext
    simpa using hok
  · rw [hkey, keyUpTo_of_isKeyText htext, keyOf_hexLine]
  · rw [hrest htext, hdrop]

end C64WireGuard
