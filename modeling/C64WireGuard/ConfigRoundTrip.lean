import C64WireGuard.ConfigText

/-!
# Writing a configuration file and reading it back

`ConfigValues.lines` is the documented file: four kinds of line in a fixed order, the last two
optional. `configReadFile_lines` says that `config_read_file` reads every such file back, in any
mixture of upper and lower case and with or without a carriage return behind the last line.

The proof takes one line at a time: a field reader leaves `fileText` of the lines to come.
-/

namespace C64WireGuard

open Bytes

/-- The values of a configuration file. A timestamp comes only behind a preshared key. -/
structure ConfigValues where
  staticPriv : Bytes 32
  staticPub : Bytes 32
  peerPub : Bytes 32
  endpointIp : Bytes 4
  endpointPort : UInt16
  tunnelIp : Bytes 4
  pingTargetIp : Bytes 4
  optional : Option (Bytes 32 × Option UInt64)

/-- The lines of the file; `upper` chooses the case of each hex digit on each line. -/
def ConfigValues.lines (upper : Nat → Nat → Bool) (v : ConfigValues) : List (List UInt8) :=
  hexLine (upper 1) v.staticPriv :: hexLine (upper 2) v.staticPub :: hexLine (upper 3) v.peerPub ::
    dotted v.endpointIp :: decimal v.endpointPort.toNat :: dotted v.tunnelIp ::
    dotted v.pingTargetIp ::
    match v.optional with
    | none => []
    | some (psk, none) => [hexLine (upper 8) psk]
    | some (psk, some time) => [hexLine (upper 8) psk, decimal time.toNat]

/-- The bytes of a file of lines. `lastCr` says whether its last line is terminated. -/
def fileText (lastCr : Bool) : List (List UInt8) → List UInt8
  | [] => []
  | [line] => if lastCr then line ++ [cr] else line
  | line :: lines => line ++ cr :: fileText lastCr lines

/-- The cells that hold the values, absent ones as zeros. -/
def ConfigValues.cells (v : ConfigValues) : CfgMem where
  cfgStaticPriv := v.staticPriv
  cfgStaticPub := v.staticPub
  cfgPeerPub := v.peerPub
  cfgPeerEndpoint := { ip := v.endpointIp, port := ofBe 2 v.endpointPort.toNat }
  cfgPresharedKey := (v.optional.map Prod.fst).getD (zero 32)
  tunnelIp := v.tunnelIp
  pingTargetIp := v.pingTargetIp
  tai64nBaseTime := ofBe 8 (((v.optional.bind Prod.snd).map UInt64.toNat).getD 0)

/-! ## One line after the other -/

/-- A line of a file ends where the remaining lines begin. -/
theorem fileText_cons (lastCr : Bool) (line : List UInt8) (lines : List (List UInt8)) :
    ∃ tail, fileText lastCr (line :: lines) = line ++ tail ∧ Ends tail (fileText lastCr lines) := by
  cases lines with
  | nil =>
    cases lastCr with
    | false => exact ⟨[], by simp [fileText], Ends.eof⟩
    | true => exact ⟨[cr], rfl, Ends.cr []⟩
  | cons next lines => exact ⟨_, rfl, Ends.cr _⟩

theorem eof_fileText_cons (lastCr : Bool) {line : List UInt8} (lines : List (List UInt8))
    (h : line ≠ []) : eof (fileText lastCr (line :: lines)) = false := by
  obtain ⟨tail, htext, -⟩ := fileText_cons lastCr line lines
  rw [htext, eof]
  simp [h]

theorem hexLine_ne_nil (upper : Nat → Bool) (key : Bytes 32) : hexLine upper key ≠ [] := by
  intro h
  have hlen := length_hexLine upper key
  rw [h] at hlen
  cases hlen

variable (lastCr : Bool) (lines : List (List UInt8))

theorem readKeyLine_fileText (buf : Bytes 32) (upper : Nat → Bool) (key : Bytes 32) :
    readKeyLine buf (fileText lastCr (hexLine upper key :: lines)) =
      (false, key, fileText lastCr lines) := by
  obtain ⟨tail, htext, hends⟩ := fileText_cons lastCr (hexLine upper key) lines
  rw [htext, readKeyLine_hexLine buf upper key hends]

theorem parseDecimalIp_fileText (ip : Bytes 4) :
    parseDecimalIp (fileText lastCr (dotted ip :: lines)) = (ip, fileText lastCr lines) := by
  obtain ⟨tail, htext, hends⟩ := fileText_cons lastCr (dotted ip) lines
  rw [htext, parseDecimalIp_dotted ip hends]

theorem parseDecimal_fileText {modulus n : Nat} (h : n < modulus) :
    parseDecimal modulus (fileText lastCr (decimal n :: lines)) 0 = (n, fileText lastCr lines) := by
  obtain ⟨tail, htext, hends⟩ := fileText_cons lastCr (decimal n) lines
  rw [htext, parseDecimal_field h hends]

/-! ## The file -/

theorem readOptional_lines (cfg : CfgMem) (upper : Nat → Bool)
    (optional : Option (Bytes 32 × Option UInt64)) :
    readOptional cfg (fileText lastCr
        (match optional with
        | none => []
        | some (psk, none) => [hexLine upper psk]
        | some (psk, some time) => [hexLine upper psk, decimal time.toNat])) =
      (false,
        { cfg with
          cfgPresharedKey := (optional.map Prod.fst).getD (zero 32)
          tai64nBaseTime := ofBe 8 (((optional.bind Prod.snd).map UInt64.toNat).getD 0) }) := by
  have hend : eof (fileText lastCr []) = true := rfl
  rcases optional with _ | ⟨psk, _ | time⟩
  · simp [readOptional, hend]
  · simp [readOptional, eof_fileText_cons lastCr [] (hexLine_ne_nil upper psk),
      readKeyLine_fileText, hend]
  · simp [readOptional, eof_fileText_cons lastCr _ (hexLine_ne_nil upper psk),
      readKeyLine_fileText, eof_fileText_cons lastCr [] (decimal_ne_nil time.toNat),
      parseDecimal_fileText lastCr [] time.toNat_lt]

/-- **What is written in the documented form is read back**, whatever the cells held before. -/
theorem configReadFile_lines (upper : Nat → Nat → Bool) (v : ConfigValues) (cfg : CfgMem) :
    configReadFile (some (fileText lastCr (v.lines upper))) cfg = (false, v.cells) := by
  simp only [configReadFile, ConfigValues.lines, readKeyLine_fileText, readAddresses,
    parseDecimalIp_fileText, parseDecimal_fileText _ _ v.endpointPort.toNat_lt]
  exact readOptional_lines lastCr _ (upper 8) v.optional

end C64WireGuard
