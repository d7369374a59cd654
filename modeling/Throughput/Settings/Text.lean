/-
  Throughput/Settings/Text.lean
  =============================
  **Settings as TOML text.**  The text can be saved as a settings file.  A list
  of several items stands on lines of its own, and a marker is quoted so that
  it reads back as itself.
-/
import Throughput.Number.Text
import Throughput.Number.Word
import Throughput.Settings.Basic
import Throughput.Text.Quoted

namespace Throughput.Toml

/-! ### Values -/

/-- A hexadecimal number in capital letters, with four digits at least. -/
def capitalHex (n : Nat) : List Char :=
  padLeft 4 ((Text.hexDigits n).map Char.toUpper)

/-- A character as a string.  Double quotes and backslashes stand between single
    quotes, a line end between triple ones, and other controls are escaped. -/
def charText (c : Char) : List Char :=
  if c = '"' ∨ c = '\\' then ['\'', c, '\'']
  else if c = '\n' then ['"', '"', '"', '\n', '\n', '"', '"', '"']
  else
    let shown :=
      if c = '\x08' then ['\\', 'b']
      else if c = '\t' then ['\\', 't']
      else if c = '\x0c' then ['\\', 'f']
      else if c = '\r' then ['\\', 'r']
      else if c.toNat < 32 ∨ c.toNat = 127 then '\\' :: 'u' :: capitalHex c.toNat
      else [c]
    '"' :: shown ++ ['"']

/-- A list of numbers: up to one item on the line, several on lines of their own. -/
def numbersText (xs : List Binary64) : String :=
  match xs with
  | [] => "[]"
  | [x] => "[" ++ x.pointed ++ "]"
  | _ => "[\n" ++ String.join (xs.map fun x => "    " ++ x.pointed ++ ",\n") ++ "]"

end Throughput.Toml

namespace Throughput.Settings

/-! ### Settings -/

def delimiterName : Delimiter → String
  | .comma => "comma"
  | .whitespace => "whitespace"

/-- The text of settings.  A count of header lines has to fit the whole numbers
    of a settings file. -/
def tomlText? (s : Settings) : Option String :=
  if Word.fitsSigned 64 s.manifest.headerLines then
    some ("delimiter = \"" ++ delimiterName s.delimiter ++ "\"\n" ++
      "percentiles = " ++ Toml.numbersText s.percentiles ++ "\n" ++
      "\n[manifest]\n" ++
      "marker = " ++ String.ofList (Toml.charText s.manifest.marker) ++ "\n" ++
      "header_lines = " ++ natText s.manifest.headerLines ++ "\n" ++
      "default_year = " ++ intText s.manifest.defaultYear ++ "\n" ++
      "\n[bandwidth]\n" ++
      "gbit_factor = " ++ s.bandwidth.gbitFactor.pointed ++ "\n")
  else none

end Throughput.Settings
