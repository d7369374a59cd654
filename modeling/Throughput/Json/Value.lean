/-
  Throughput/Json/Value.lean
  ==========================
  **JSON values and their text.**  A value keeps the order of its entries and
  the spelling of its numbers.  It is written compactly or over several lines
  with two blanks per level (`compact`, `pretty`).
-/
import Throughput.Number.Text
import Throughput.Text.Quoted

namespace Throughput

/-- A JSON value.  A string whose escapes leave half of a surrogate pair has no
    text. -/
inductive Json where
  | null
  | boolean (value : Bool)
  | number (token : List Char)
  | string (text : Option String)
  | array (items : List Json)
  | object (entries : List (Option String × Json))

namespace Json

/-! ### Building values -/

def ofString (text : String) : Json := string (some text)

def ofNat (n : Nat) : Json := number (digitsOf n)

/-- A number; what is not finite has no number in JSON and becomes `null`. -/
def ofBinary64 (x : Binary64) : Json :=
  if x.isFinite then number x.scientific.toList else null

def ofList {α : Type} (f : α → Json) (xs : List α) : Json := array (xs.map f)

def ofOption {α : Type} (f : α → Json) : Option α → Json
  | none => null
  | some x => f x

def record (entries : List (String × Json)) : Json :=
  object (entries.map fun (name, value) => (some name, value))

/-! ### Strings -/

/-- How a character is written inside a string. -/
def escapeChar (c : Char) : List Char :=
  if c = '"' then ['\\', '"']
  else if c = '\\' then ['\\', '\\']
  else if c = '\n' then ['\\', 'n']
  else if c = '\r' then ['\\', 'r']
  else if c = '\t' then ['\\', 't']
  else if c = '\x08' then ['\\', 'b']
  else if c = '\x0c' then ['\\', 'f']
  else if c.toNat < 32 then ['\\', 'u'] ++ padLeft 4 (Text.hexDigits c.toNat)
  else [c]

/-- A string in double quotes; a string without text is shown as empty. -/
def stringText (text : Option String) : List Char :=
  '"' :: (text.getD "").toList.flatMap escapeChar ++ ['"']

/-! ### Compact text -/

mutual

/-- The text of a value without blanks. -/
def compact : Json → List Char
  | null => ['n', 'u', 'l', 'l']
  | boolean true => ['t', 'r', 'u', 'e']
  | boolean false => ['f', 'a', 'l', 's', 'e']
  | number token => token
  | string text => stringText text
  | array items => '[' :: compactItems items ++ [']']
  | object entries => '\x7b' :: compactEntries entries ++ ['\x7d']

def compactItems : List Json → List Char
  | [] => []
  | [item] => compact item
  | item :: rest => compact item ++ ',' :: compactItems rest

def compactEntries : List (Option String × Json) → List Char
  | [] => []
  | [(name, value)] => stringText name ++ ':' :: compact value
  | (name, value) :: rest => stringText name ++ ':' :: compact value ++ ',' :: compactEntries rest

end

/-! ### Text over several lines -/

/-- A new line at a depth. -/
def lineAt (depth : Nat) : List Char := '\n' :: List.replicate (2 * depth) ' '

mutual

/-- The text of a value at a depth, one item or entry per line; empty lists and
    objects stay on theirs. -/
def prettyAt (depth : Nat) : Json → List Char
  | null => ['n', 'u', 'l', 'l']
  | boolean true => ['t', 'r', 'u', 'e']
  | boolean false => ['f', 'a', 'l', 's', 'e']
  | number token => token
  | string text => stringText text
  | array items =>
    if items.isEmpty then ['[', ']']
    else '[' :: prettyItems (depth + 1) items ++ lineAt depth ++ [']']
  | object entries =>
    if entries.isEmpty then ['\x7b', '\x7d']
    else '\x7b' :: prettyEntries (depth + 1) entries ++ lineAt depth ++ ['\x7d']

def prettyItems (depth : Nat) : List Json → List Char
  | [] => []
  | [item] => lineAt depth ++ prettyAt depth item
  | item :: rest => lineAt depth ++ prettyAt depth item ++ ',' :: prettyItems depth rest

def prettyEntries (depth : Nat) : List (Option String × Json) → List Char
  | [] => []
  | [(name, value)] => lineAt depth ++ stringText name ++ ':' :: ' ' :: prettyAt depth value
  | (name, value) :: rest =>
    lineAt depth ++ stringText name ++ ':' :: ' ' :: prettyAt depth value ++
      ',' :: prettyEntries depth rest

end

def compactText (value : Json) : String := String.ofList value.compact

def prettyText (value : Json) : String := String.ofList (value.prettyAt 0)

end Json

end Throughput
