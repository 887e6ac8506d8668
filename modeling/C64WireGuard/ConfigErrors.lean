import C64WireGuard.ConfigRoundTrip

/-!
# Configuration files that are not in the documented form

`config_read_file` parses straight into the live cells and counts characters instead of looking for
line ends. The first makes a failed load leave a mixture of two configurations: `FailedLoad` is
which one. The second makes it accept key lines of the wrong length:
`configReadFile_keyLines_iff` is the exact set of files for which it does not.

Both follow from where each reader stops, which `readKeyLine_spec` gives for the keys and
`parseDecimalIp_snd`, `parseDecimal_snd` for the fields between them.
-/

namespace C64WireGuard

open Bytes

/-! ## Where the readers stop -/

/-- What follows the next carriage return. -/
def afterLine (text : List UInt8) : List UInt8 := (text.dropWhile fun c => c ≠ cr).drop 1

/-- What follows the next dot or carriage return. -/
def afterOctet (text : List UInt8) : List UInt8 :=
  (text.dropWhile fun c => ¬ (c = 0x2e ∨ c = cr)).drop 1

theorem afterLine_cons (c : UInt8) (text : List UInt8) :
    afterLine (c :: text) = if c = cr then text else afterLine text := by
  unfold afterLine
  rw [List.dropWhile_cons]
  by_cases hc : c = cr
  · simp [hc]
  · simp [hc]

theorem afterOctet_cons (c : UInt8) (text : List UInt8) :
    afterOctet (c :: text) = if c = 0x2e ∨ c = cr then text else afterOctet text := by
  unfold afterOctet
  rw [List.dropWhile_cons]
  by_cases hc : c = 0x2e ∨ c = cr
  · rw [if_pos hc, if_neg (by simp [hc])]
    rfl
  · rw [if_neg hc, if_pos (by simp [hc])]

theorem parseOctet_snd (text : List UInt8) (acc : UInt8) :
    (parseOctet text acc).2 = afterOctet text := by
  induction text generalizing acc with
  | nil => rfl
  | cons c text ih =>
    rw [parseOctet, afterOctet_cons]
    by_cases hc : c = 0x2e ∨ c = cr
    · rw [if_pos hc, if_pos hc]
    · rw [if_neg hc, if_neg hc, ih]

theorem parseDecimal_snd (modulus : Nat) (text : List UInt8) (acc : Nat) :
    (parseDecimal modulus text acc).2 = afterLine text := by
  induction text generalizing acc with
  | nil => rfl
  | cons c text ih =>
    rw [parseDecimal, afterLine_cons]
    by_cases hc : c = cr
    · rw [if_pos hc, if_pos hc]
    · rw [if_neg hc, if_neg hc, ih]

theorem parseDecimalIp_snd (text : List UInt8) :
    (parseDecimalIp text).2 = afterOctet^[4] text := by
  simp only [parseDecimalIp, parseOctet_snd]
  rfl

/-- Where the optional lines are read from: behind the three keys, their three skipped characters,
and the thirteen separators of the address fields. -/
def pskText (text : List UInt8) : List UInt8 :=
  afterOctet^[8] (afterLine (afterOctet^[4] (text.drop 195)))

theorem readAddresses_snd (cfg : CfgMem) (text : List UInt8) :
    (readAddresses cfg (text.drop 195)).2 = pskText text := by
  simp only [readAddresses, parseDecimalIp_snd, parseDecimal_snd, pskText]
  exact (Function.iterate_add_apply afterOctet 4 4 _).symm

/-! ## What a load does with each file -/

/-- `FailedLoad cfg file cells`: how a load fails on `file`, and the cells it leaves behind when
they held `cfg`. The key lines before the bad one are stored, and so are the bytes of the bad one
up to its bad character; no later field is touched. -/
inductive FailedLoad (cfg : CfgMem) : Option (List UInt8) → CfgMem → Prop
  | unopened : FailedLoad cfg none cfg
  | line1 {text : List UInt8} (h₁ : ¬ IsKeyText text) :
      FailedLoad cfg (some text) { cfg with cfgStaticPriv := keyUpTo text cfg.cfgStaticPriv }
  | line2 {text : List UInt8} (h₁ : IsKeyText text) (h₂ : ¬ IsKeyText (text.drop 65)) :
      FailedLoad cfg (some text)
        { cfg with
          cfgStaticPriv := keyOf text
          cfgStaticPub := keyUpTo (text.drop 65) cfg.cfgStaticPub }
  | line3 {text : List UInt8} (h₁ : IsKeyText text) (h₂ : IsKeyText (text.drop 65))
      (h₃ : ¬ IsKeyText (text.drop 130)) :
      FailedLoad cfg (some text)
        { cfg with
          cfgStaticPriv := keyOf text
          cfgStaticPub := keyOf (text.drop 65)
          cfgPeerPub := keyUpTo (text.drop 130) cfg.cfgPeerPub }
  | line8 {text : List UInt8} (h₁ : IsKeyText text) (h₂ : IsKeyText (text.drop 65))
      (h₃ : IsKeyText (text.drop 130)) (h₈ : pskText text ≠ [])
      (h₈' : ¬ IsKeyText (pskText text)) :
      FailedLoad cfg (some text)
        { (readAddresses cfg (text.drop 195)).1 with
          cfgStaticPriv := keyOf text
          cfgStaticPub := keyOf (text.drop 65)
          cfgPeerPub := keyOf (text.drop 130)
          cfgPresharedKey := keyUpTo (pskText text) cfg.cfgPresharedKey }

/-- Some character in a place where a key is read is no hex digit. -/
def Rejected (text : List UInt8) : Prop :=
  ¬ IsKeyText text ∨ ¬ IsKeyText (text.drop 65) ∨ ¬ IsKeyText (text.drop 130) ∨
    (pskText text ≠ [] ∧ ¬ IsKeyText (pskText text))

theorem readKeyLine_ok {buf : Bytes 32} {text : List UInt8} (h : IsKeyText text) :
    readKeyLine buf text = (false, keyOf text, text.drop 65) := by
  obtain ⟨hcarry, hkey, hrest⟩ := readKeyLine_spec buf text
  have hok : (readKeyLine buf text).1 = false := by
    rw [← Bool.not_eq_true, hcarry]
    exact not_not.mpr h
  rw [← hok, ← keyUpTo_of_isKeyText h buf, ← hkey, ← hrest h]

theorem readKeyLine_bad (buf : Bytes 32) {text : List UInt8} (h : ¬ IsKeyText text) :
    (readKeyLine buf text).1 = true ∧ (readKeyLine buf text).2.1 = keyUpTo text buf :=
  ⟨(readKeyLine_spec buf text).1.mpr h, (readKeyLine_spec buf text).2.1⟩

theorem readOptional_ok (cfg : CfgMem) {text : List UInt8} (h : text ≠ [] → IsKeyText text) :
    (readOptional cfg text).1 = false := by
  by_cases htext : text = []
  · simp [readOptional, eof, htext]
  · simp [readOptional, eof, htext, readKeyLine_ok (h htext)]

theorem readOptional_bad (cfg : CfgMem) {text : List UInt8} (h : text ≠ [])
    (hkey : ¬ IsKeyText text) :
    readOptional cfg text = (true, { cfg with cfgPresharedKey := keyUpTo text cfg.cfgPresharedKey })
    := by
  obtain ⟨hcarry, hbuf⟩ := readKeyLine_bad cfg.cfgPresharedKey hkey
  simp [readOptional, eof, h, hcarry, hbuf]

theorem readAddresses_keys (cfg : CfgMem) (priv pub peer : Bytes 32) (text : List UInt8) :
    readAddresses
        { cfg with cfgStaticPriv := priv, cfgStaticPub := pub, cfgPeerPub := peer } text =
      ({ (readAddresses cfg text).1 with
          cfgStaticPriv := priv, cfgStaticPub := pub, cfgPeerPub := peer },
        (readAddresses cfg text).2) := by
  simp only [readAddresses]

theorem readAddresses_psk (cfg : CfgMem) (text : List UInt8) :
    (readAddresses cfg text).1.cfgPresharedKey = cfg.cfgPresharedKey := by
  simp only [readAddresses]

/-- A load either fails, on a rejected file, or goes through. -/
theorem configReadFile_cases (text : List UInt8) (cfg : CfgMem) :
    (Rejected text ∧ (configReadFile (some text) cfg).1 = true ∧
      FailedLoad cfg (some text) (configReadFile (some text) cfg).2) ∨
    (¬ Rejected text ∧ (configReadFile (some text) cfg).1 = false) := by
  unfold Rejected
  by_cases h₁ : IsKeyText text
  · by_cases h₂ : IsKeyText (text.drop 65)
    · by_cases h₃ : IsKeyText (text.drop 130)
      · have heq : configReadFile (some text) cfg =
            readOptional
              { (readAddresses cfg (text.drop 195)).1 with
                cfgStaticPriv := keyOf text
                cfgStaticPub := keyOf (text.drop 65)
                cfgPeerPub := keyOf (text.drop 130) } (pskText text) := by
          simp only [configReadFile, readKeyLine_ok h₁, readKeyLine_ok h₂, List.drop_drop,
            readKeyLine_ok h₃, Bool.false_eq_true, if_false, Nat.reduceAdd, readAddresses_keys,
            readAddresses_snd]
        rw [heq]
        by_cases h₈ : pskText text ≠ [] ∧ ¬ IsKeyText (pskText text)
        · left
          have hfail : FailedLoad cfg (some text)
              { (readAddresses cfg (text.drop 195)).1 with
                cfgStaticPriv := keyOf text
                cfgStaticPub := keyOf (text.drop 65)
                cfgPeerPub := keyOf (text.drop 130)
                cfgPresharedKey := keyUpTo (pskText text) cfg.cfgPresharedKey } :=
            FailedLoad.line8 h₁ h₂ h₃ h₈.1 h₈.2
          rw [← readAddresses_psk cfg (text.drop 195)] at hfail
          rw [readOptional_bad _ h₈.1 h₈.2]
          exact ⟨Or.inr (Or.inr (Or.inr h₈)), rfl, hfail⟩
        · right
          refine ⟨by simp only [h₁, h₂, h₃, h₈, not_true_eq_false, or_self, not_false_iff],
            readOptional_ok _ fun h => ?_⟩
          exact not_not.mp fun h' => h₈ ⟨h, h'⟩
      · left
        obtain ⟨hcarry, hkey⟩ := readKeyLine_bad cfg.cfgPeerPub h₃
        have heq : configReadFile (some text) cfg =
            (true, { cfg with
              cfgStaticPriv := keyOf text
              cfgStaticPub := keyOf (text.drop 65)
              cfgPeerPub := keyUpTo (text.drop 130) cfg.cfgPeerPub }) := by
          simp only [configReadFile, readKeyLine_ok h₁, readKeyLine_ok h₂, List.drop_drop, hcarry,
            hkey, Bool.false_eq_true, if_false, if_true]
        rw [heq]
        exact ⟨Or.inr (Or.inr (Or.inl h₃)), rfl, FailedLoad.line3 h₁ h₂ h₃⟩
    · left
      obtain ⟨hcarry, hkey⟩ := readKeyLine_bad cfg.cfgStaticPub h₂
      have heq : configReadFile (some text) cfg =
          (true, { cfg with
            cfgStaticPriv := keyOf text
            cfgStaticPub := keyUpTo (text.drop 65) cfg.cfgStaticPub }) := by
        simp only [configReadFile, readKeyLine_ok h₁, hcarry, hkey, Bool.false_eq_true, if_false,
          if_true]
      rw [heq]
      exact ⟨Or.inr (Or.inl h₂), rfl, FailedLoad.line2 h₁ h₂⟩
  · left
    obtain ⟨hcarry, hkey⟩ := readKeyLine_bad cfg.cfgStaticPriv h₁
    have heq : configReadFile (some text) cfg =
        (true, { cfg with cfgStaticPriv := keyUpTo text cfg.cfgStaticPriv }) := by
      simp only [configReadFile, hcarry, hkey, if_true]
    rw [heq]
    exact ⟨Or.inl h₁, rfl, FailedLoad.line1 h₁⟩

/-- **What a failed load leaves behind.** -/
theorem configReadFile_failed (file : Option (List UInt8)) (cfg : CfgMem)
    (h : (configReadFile file cfg).1 = true) : FailedLoad cfg file (configReadFile file cfg).2 := by
  cases file with
  | none => exact FailedLoad.unopened
  | some text =>
    rcases configReadFile_cases text cfg with ⟨-, -, hfail⟩ | ⟨-, hok⟩
    · exact hfail
    · rw [hok] at h
      cases h

/-- A file whose first key is new and whose second stops at its first character. -/
def mixingText : List UInt8 := List.replicate 64 0x31 ++ [cr, 0x7a]

theorem configReadFile_failed_mixing :
    FailedLoad CfgMem.start (some mixingText)
      (configReadFile (some mixingText) CfgMem.start).2 :=
  configReadFile_failed (some mixingText) CfgMem.start (by decide +kernel)

/-- A failed load is not without effect: the private key is new, the public key still old. -/
theorem configReadFile_failed_changes :
    ¬ ∀ (file : Option (List UInt8)) (cfg : CfgMem),
      (configReadFile file cfg).1 = true → (configReadFile file cfg).2 = cfg := by
  intro h
  have hsame := h (some mixingText) CfgMem.start (by decide +kernel)
  have hpriv := congrArg (fun cfg => byte cfg.cfgStaticPriv 0) hsame
  revert hpriv
  decide +kernel

/-! ## The length of key lines -/

/-- Line `n` of a text, counted from zero. A carriage return ends a line; behind the last one there
is a line only if anything is left. -/
def textLine (n : Nat) (text : List UInt8) : Option (List UInt8) :=
  if afterLine^[n] text = [] then none else some ((afterLine^[n] text).takeWhile fun c => c ≠ cr)

/-- A line of exactly 64 hex digits. -/
def IsKeyLine (line : List UInt8) : Prop := line.length = 64 ∧ ∀ c ∈ line, IsHex c

/-- The first three lines are keys, and so is the eighth if there is one. -/
def KeyLinesExact (text : List UInt8) : Prop :=
  (∀ i < 3, ∃ line, textLine i text = some line ∧ IsKeyLine line) ∧
    ∀ line, textLine 7 text = some line → IsKeyLine line

/-- The character behind a key is a carriage return, or the file ends there. -/
def KeyEnds (text : List UInt8) : Prop := text[64]? = none ∨ text[64]? = some cr

/-- What the lines behind the seventh hold, in a file whose first three lines are keys. -/
def lineEight (text : List UInt8) : List UInt8 := afterLine^[4] (text.drop 195)

theorem not_cr_of_isHex {c : UInt8} (h : IsHex c) : c ≠ cr := by
  rintro rfl
  exact not_isHex_cr h

/-- A key that ends is split off by its carriage return. -/
theorem takeWhile_key {text : List UInt8} (hkey : IsKeyText text) (hends : KeyEnds text) :
    (text.takeWhile fun c => c ≠ cr) = text.take 64 ∧ afterLine text = text.drop 65 := by
  have hall : ∀ c ∈ text.take 64, decide (c ≠ cr) = true := fun c hc =>
    decide_eq_true (not_cr_of_isHex (hkey.2 c hc))
  have hsplit : text.take 64 ++ text.drop 64 = text := List.take_append_drop 64 text
  have htail : text.drop 65 = (text.drop 64).drop 1 := by rw [List.drop_drop]
  have hrest : text.drop 64 = [] ∨ ∃ rest, text.drop 64 = cr :: rest := by
    rcases hends with hnone | hcr
    · left
      exact List.drop_of_length_le (List.getElem?_eq_none_iff.mp hnone)
    · right
      obtain ⟨hlt, hget⟩ := List.getElem?_eq_some_iff.mp hcr
      exact ⟨text.drop 65, by rw [List.drop_eq_getElem_cons hlt, hget]⟩
  have htake : (text.takeWhile fun c => c ≠ cr) =
      text.take 64 ++ (text.drop 64).takeWhile fun c => c ≠ cr := by
    conv_lhs => rw [← hsplit]
    exact List.takeWhile_append_of_pos hall
  have hdrop : (text.dropWhile fun c => c ≠ cr) = (text.drop 64).dropWhile fun c => c ≠ cr := by
    conv_lhs => rw [← hsplit]
    exact List.dropWhile_append_of_pos hall
  unfold afterLine
  rw [htake, hdrop, htail]
  rcases hrest with hnil | ⟨rest, hcons⟩
  · simp [hnil]
  · simp [hcons]

/-- A text's first line is a key exactly when the text begins with one and the key ends there. -/
theorem firstLine_key_iff (text : List UInt8) :
    (∃ line, textLine 0 text = some line ∧ IsKeyLine line) ↔ IsKeyText text ∧ KeyEnds text := by
  unfold textLine
  rw [Function.iterate_zero, id]
  constructor
  · rintro ⟨line, hline, hlen, hhex⟩
    by_cases hnil : text = []
    · rw [if_pos hnil] at hline
      cases hline
    · rw [if_neg hnil, Option.some.injEq] at hline
      subst hline
      have hsplit := List.takeWhile_append_dropWhile (p := fun c => decide (c ≠ cr)) (l := text)
      generalize hfirst : (text.takeWhile fun c => decide (c ≠ cr)) = first at *
      have htake : text.take 64 = first := by
        rw [← hsplit, List.take_append_of_le_length hlen.ge, List.take_of_length_le hlen.le]
      refine ⟨⟨?_, ?_⟩, ?_⟩
      · rw [← hsplit, List.length_append]
        omega
      · rw [htake]
        exact hhex
      · unfold KeyEnds
        rw [← hsplit, List.getElem?_append_right hlen.le, hlen]
        cases hd : text.dropWhile fun c => decide (c ≠ cr) with
        | nil => exact Or.inl rfl
        | cons c rest =>
          right
          have hc := List.head_dropWhile_not (l := text) (fun c => decide (c ≠ cr))
            (hd ▸ List.cons_ne_nil c rest)
          simp only [hd, List.head_cons, decide_eq_false_iff_not, ne_eq, not_not] at hc
          rw [hc]
          rfl
  · rintro ⟨hkey, hends⟩
    have hnil : text ≠ [] := by
      rintro rfl
      exact absurd hkey.1 (by simp)
    rw [if_neg hnil, (takeWhile_key hkey hends).1]
    refine ⟨_, rfl, ?_, hkey.2⟩
    rw [List.length_take]
    exact min_eq_left hkey.1

theorem textLine_succ (n : Nat) (text : List UInt8) :
    textLine (n + 1) text = textLine n (afterLine text) := by
  unfold textLine
  rw [Function.iterate_succ_apply]

/-- Line 8 of a file whose first three lines are keys. -/
theorem lineEight_key_iff {text : List UInt8} (h : textLine 7 text = textLine 0 (lineEight text)) :
    (∀ line, textLine 7 text = some line → IsKeyLine line) ↔
      (lineEight text = [] ∨ IsKeyText (lineEight text) ∧ KeyEnds (lineEight text)) := by
  rw [h, ← firstLine_key_iff]
  by_cases hnil : lineEight text = []
  · simp [hnil, textLine]
  · simp [hnil, textLine]

/-- The three keys of a file that is not rejected are lines exactly when each of them ends. -/
theorem keyLinesExact_iff {text : List UInt8} (h₁ : IsKeyText text) (h₂ : IsKeyText (text.drop 65))
    (h₃ : IsKeyText (text.drop 130)) :
    KeyLinesExact text ↔
      KeyEnds text ∧ KeyEnds (text.drop 65) ∧ KeyEnds (text.drop 130) ∧
        (lineEight text = [] ∨ IsKeyText (lineEight text) ∧ KeyEnds (lineEight text)) := by
  unfold KeyLinesExact
  constructor
  · rintro ⟨hfirst, height⟩
    have he₁ := ((firstLine_key_iff text).mp (hfirst 0 (by decide))).2
    have hline₁ := hfirst 1 (by decide)
    rw [textLine_succ, (takeWhile_key h₁ he₁).2] at hline₁
    have he₂ := ((firstLine_key_iff _).mp hline₁).2
    have hline₂ := hfirst 2 (by decide)
    rw [textLine_succ, textLine_succ, (takeWhile_key h₁ he₁).2, (takeWhile_key h₂ he₂).2,
      List.drop_drop] at hline₂
    have he₃ := ((firstLine_key_iff _).mp hline₂).2
    have hseven : textLine 7 text = textLine 0 (lineEight text) := by
      rw [textLine_succ, textLine_succ, textLine_succ, (takeWhile_key h₁ he₁).2,
        (takeWhile_key h₂ he₂).2, List.drop_drop, (takeWhile_key h₃ he₃).2, List.drop_drop]
      rfl
    exact ⟨he₁, he₂, he₃, (lineEight_key_iff hseven).mp height⟩
  · rintro ⟨he₁, he₂, he₃, height⟩
    have hafter₁ := (takeWhile_key h₁ he₁).2
    have hafter₂ := (takeWhile_key h₂ he₂).2
    have hafter₃ := (takeWhile_key h₃ he₃).2
    rw [List.drop_drop] at hafter₂ hafter₃
    refine ⟨fun i hi => ?_, ?_⟩
    · interval_cases i
      · exact (firstLine_key_iff _).mpr ⟨h₁, he₁⟩
      · rw [textLine_succ, hafter₁]
        exact (firstLine_key_iff _).mpr ⟨h₂, he₂⟩
      · rw [textLine_succ, textLine_succ, hafter₁, hafter₂]
        exact (firstLine_key_iff _).mpr ⟨h₃, he₃⟩
    · refine (lineEight_key_iff ?_).mpr height
      rw [textLine_succ, textLine_succ, textLine_succ, hafter₁, hafter₂, hafter₃]
      rfl

/-- **Key lines are accepted exactly** for the files that are rejected, and for those whose skipped
characters are carriage returns: behind each of the three keys, and behind the eighth line's key
when there is an eighth line. Where the address lines do not hold their thirteen separators, the
preshared key is not read from the eighth line, so the line must be a key of its own accord. -/
theorem configReadFile_keyLines_iff (text : List UInt8) (cfg : CfgMem) :
    ((configReadFile (some text) cfg).1 = false → KeyLinesExact text) ↔
      (Rejected text ∨
        KeyEnds text ∧ KeyEnds (text.drop 65) ∧ KeyEnds (text.drop 130) ∧
          (lineEight text = [] ∨
            KeyEnds (lineEight text) ∧
              (pskText text = lineEight text ∨ IsKeyText (lineEight text)))) := by
  rcases configReadFile_cases text cfg with ⟨hrej, hcarry, -⟩ | ⟨hrej, hcarry⟩
  · simp [hrej, hcarry]
  · have hrej' := hrej
    simp only [Rejected, not_or, not_not, not_and, ne_eq] at hrej'
    obtain ⟨h₁, h₂, h₃, h₈⟩ := hrej'
    have height : (lineEight text = [] ∨ IsKeyText (lineEight text) ∧ KeyEnds (lineEight text)) ↔
        (lineEight text = [] ∨
          KeyEnds (lineEight text) ∧
            (pskText text = lineEight text ∨ IsKeyText (lineEight text))) := by
      by_cases hnil : lineEight text = []
      · simp [hnil]
      · by_cases haligned : pskText text = lineEight text
        · have hkey := h₈ (by rw [haligned]; exact hnil)
          rw [haligned] at hkey
          simp [hnil, haligned, hkey]
        · simp only [hnil, haligned, false_or]
          exact and_comm
    simp only [hrej, hcarry, true_imp_iff, false_or]
    rw [keyLinesExact_iff h₁ h₂ h₃, height]

/-- A file in the documented form but for its eighth line, which has one digit too many. -/
def longPskText : List UInt8 :=
  let key := List.replicate 64 0x31
  fileText true
    [key, key, key, dotted #v[10, 0, 0, 1], decimal 51820, dotted #v[10, 0, 0, 2],
      dotted #v[10, 0, 0, 1], 0x31 :: key]

/-- The 65th digit is skipped and the file accepted. -/
theorem configReadFile_longPsk :
    ¬ ((configReadFile (some longPskText) CfgMem.start).1 = false → KeyLinesExact longPskText) := by
  intro h
  have hexact := (h (by decide +kernel)).2 (List.replicate 65 0x31) (by decide +kernel)
  exact absurd hexact.1 (by decide)

end C64WireGuard
