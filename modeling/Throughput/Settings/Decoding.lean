/-
  Throughput/Settings/Decoding.lean
  =================================
  **Reading settings from values.**  Values are taken loosely: a number may be
  written as text, a truth value counts as one or zero, a fraction is rounded
  where a whole number is asked for.  What is missing keeps its standard value
  and what is unknown does not matter.
-/
import Throughput.Number.Word
import Throughput.Settings.Basic
import Throughput.Toml.Value

namespace Throughput.Toml

/-! ### Loose values -/

def lowered (text : String) : String := String.ofList (text.toList.map lowerAscii)

/-- A truth value in words. -/
def truth? (text : String) : Option Bool :=
  let word := lowered text
  if word = "true" ∨ word = "on" ∨ word = "yes" then some true
  else if word = "false" ∨ word = "off" ∨ word = "no" then some false
  else none

/-- One for a truth, zero for a falsehood. -/
def ofTruth (b : Bool) : Nat := if b then 1 else 0

def toNumber? : Toml → Option Binary64
  | number x => some x
  | integer n => some (.ofInt n)
  | boolean b => some (.ofNat (ofTruth b))
  | string text =>
    match truth? text with
    | some b => some (.ofNat (ofTruth b))
    | none => Binary64.ofText? text.toList
  | _ => none

/-- A whole number of 64 bits. -/
def toInteger? : Toml → Option Int
  | integer n => some n
  | number x => some (x.roundWithin (Word.leastSigned 64) (Word.greatestSigned 64))
  | boolean b => some (ofTruth b)
  | string text =>
    match truth? text with
    | some b => some (ofTruth b)
    | none => (Decimal.signed? text.toList).filter (Word.fitsSigned 64)
  | _ => none

/-- A whole number of 64 bits that is not negative. -/
def toNatural? : Toml → Option Nat
  | integer n => if 0 ≤ n then some n.toNat else none
  | number x => some (x.roundWithin 0 (Word.greatest 64)).toNat
  | boolean b => some (ofTruth b)
  | string text =>
    match truth? text with
    | some b => some (ofTruth b)
    | none => (Decimal.unsignedWhole? text.toList).filter (Word.fits 64)
  | _ => none

def toChar? : Toml → Option Char
  | string text =>
    match text.toList with
    | [c] => some c
    | _ => none
  | _ => none

def toList? {α : Type} (item? : Toml → Option α) : Toml → Option (List α)
  | array items => items.mapM item?
  | _ => none

/-- A delimiter by its name in any letter case. -/
def delimiterNamed? (name : String) : Option Delimiter :=
  if lowered name = "comma" then some .comma
  else if lowered name = "whitespace" then some .whitespace
  else none

/-- A delimiter by its name, or as a table with its name as the only entry. -/
def toDelimiter? : Toml → Option Delimiter
  | string name => delimiterNamed? name
  | table [(name, _)] => delimiterNamed? name
  | _ => none

/-! ### Records -/

/-- The values under the given names; an array has them in their order. -/
def fields? (names : List String) : Toml → Option (List (Option Toml))
  | table entries => some (names.map fun name => entries.lookup name)
  | array items => some ((List.range names.length).map fun i => itemAt? i items)
  | _ => none

/-- A value that may be missing. -/
def orStandard {α : Type} (read? : Toml → Option α) (standard : α) : Option Toml → Option α
  | none => some standard
  | some value => read? value

def toManifestRule? (value : Toml) : Option ManifestRule := do
  match ← fields? ["marker", "header_lines", "default_year"] value with
  | [marker, headerLines, defaultYear] =>
    return {
      marker := ← orStandard toChar? ManifestRule.standard.marker marker
      headerLines := ← orStandard toNatural? ManifestRule.standard.headerLines headerLines
      defaultYear := ← orStandard (fun v => v.toInteger?.filter (Word.fitsSigned 32))
        ManifestRule.standard.defaultYear defaultYear }
  | _ => none

def toBandwidthRule? (value : Toml) : Option BandwidthRule := do
  match ← fields? ["gbit_factor"] value with
  | [factor] => return ⟨← orStandard toNumber? BandwidthRule.standard.gbitFactor factor⟩
  | _ => none

end Throughput.Toml

namespace Throughput.Settings

/-- The settings in the entries of a table. -/
def ofEntries? (entries : Toml.Entries) : Option Settings := do
  return {
    delimiter := ← Toml.orStandard Toml.toDelimiter? standard.delimiter
      (entries.lookup "delimiter")
    percentiles := ← Toml.orStandard (Toml.toList? Toml.toNumber?) standard.percentiles
      (entries.lookup "percentiles")
    manifest := ← Toml.orStandard Toml.toManifestRule? standard.manifest
      (entries.lookup "manifest")
    bandwidth := ← Toml.orStandard Toml.toBandwidthRule? standard.bandwidth
      (entries.lookup "bandwidth") }

end Throughput.Settings
