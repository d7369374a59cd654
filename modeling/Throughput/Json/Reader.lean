/-
  Throughput/Json/Reader.lean
  ===========================
  **Reading JSON.**  `Json.ofText?` reads one value with blanks around it and
  nothing else.  Numbers are kept as written; whether one fits the place it
  stands in is for the reader of that place to decide (`nat?`, `binary64?`).
-/
import Throughput.Json.Value
import Throughput.Number.Decimal

namespace Throughput.Json

/-! ### Blanks and strings -/

def isBlank (c : Char) : Bool := c == ' ' || c == '\n' || c == '\t' || c == '\r'

def skipBlanks (cs : List Char) : List Char := cs.dropWhile isBlank

/-- What a string is made of: characters, and 16-bit units given by number. -/
inductive Piece where
  | char (c : Char)
  | unit (n : Nat)

def hexValue? (c : Char) : Option Nat :=
  if '0' ≤ c ∧ c ≤ '9' then some (c.toNat - 48)
  else if 'a' ≤ c ∧ c ≤ 'f' then some (c.toNat - 87)
  else if 'A' ≤ c ∧ c ≤ 'F' then some (c.toNat - 55)
  else none

def fourHex? (a b c d : Char) : Option Nat := do
  let a ← hexValue? a
  let b ← hexValue? b
  let c ← hexValue? c
  let d ← hexValue? d
  return ((a * 16 + b) * 16 + c) * 16 + d

def shortEscape? : Char → Option Char
  | '"' => some '"'
  | '\\' => some '\\'
  | '/' => some '/'
  | 'b' => some '\x08'
  | 'f' => some '\x0c'
  | 'n' => some '\n'
  | 'r' => some '\r'
  | 't' => some '\t'
  | _ => none

/-- The pieces of a string up to its closing quote, and what follows.  Control
    characters have to be escaped. -/
def stringPieces? : List Char → Option (List Piece × List Char)
  | [] => none
  | '"' :: rest => some ([], rest)
  | '\\' :: 'u' :: a :: b :: c :: d :: rest => do
    let n ← fourHex? a b c d
    let (pieces, rest) ← stringPieces? rest
    return (.unit n :: pieces, rest)
  | '\\' :: e :: rest => do
    let c ← shortEscape? e
    let (pieces, rest) ← stringPieces? rest
    return (.char c :: pieces, rest)
  | c :: rest => do
    if c.toNat < 32 then none
    let (pieces, rest) ← stringPieces? rest
    return (.char c :: pieces, rest)

/-- The text of a string.  Two units of a surrogate pair are one character; half
    a pair is none. -/
def assemble? : List Piece → Option (List Char)
  | [] => some []
  | .char c :: rest => (assemble? rest).map (c :: ·)
  | .unit high :: .unit low :: rest =>
    if 0xd800 ≤ high ∧ high < 0xdc00 then
      if 0xdc00 ≤ low ∧ low < 0xe000 then
        (assemble? rest).map
          (Char.ofNat (0x10000 + (high - 0xd800) * 0x400 + (low - 0xdc00)) :: ·)
      else none
    else if 0xdc00 ≤ high ∧ high < 0xe000 then none
    else (assemble? (.unit low :: rest)).map (Char.ofNat high :: ·)
  | .unit n :: rest =>
    if 0xd800 ≤ n ∧ n < 0xe000 then none
    else (assemble? rest).map (Char.ofNat n :: ·)

/-- A string behind its opening quote. -/
def stringBody? (cs : List Char) : Option (Option String × List Char) := do
  let (pieces, rest) ← stringPieces? cs
  return ((assemble? pieces).map String.ofList, rest)

/-! ### Numbers -/

def digits? (cs : List Char) : Option (List Char × List Char) :=
  let ds := cs.takeWhile Decimal.isDigit
  if ds.isEmpty then none else some (ds, cs.dropWhile Decimal.isDigit)

/-- The digits before the point: no zero in front of others. -/
def wholePart? (cs : List Char) : Option (List Char × List Char) := do
  let (ds, rest) ← digits? cs
  if ds.head? = some '0' ∧ ds ≠ ['0'] then none
  return (ds, rest)

/-- A number in its parts: sign, digits before and behind the point, exponent. -/
structure NumberParts where
  negative : Bool
  whole : List Char
  fraction : Option (List Char)
  exponent : Option Int
  deriving DecidableEq

def fractionPart? : List Char → Option (Option (List Char) × List Char)
  | '.' :: cs => do
    let (ds, rest) ← digits? cs
    return (some ds, rest)
  | cs => some (none, cs)

def exponentPart? : List Char → Option (Option Int × List Char)
  | c :: cs =>
    if c = 'e' ∨ c = 'E' then do
      let (negative, cs) := Decimal.splitSign cs
      let (ds, rest) ← digits? cs
      let n : Int := Decimal.ofDigits ds
      return (some (if negative then -n else n), rest)
    else some (none, c :: cs)
  | [] => some (none, [])

/-- A character of a number: such characters never follow one another across the
    end of a value. -/
def isNumberChar (c : Char) : Bool :=
  Decimal.isDigit c || c == '+' || c == '-' || c == '.' || c == 'e' || c == 'E'

def numberParts? (cs : List Char) : Option (NumberParts × List Char) := do
  let (negative, cs) := match cs with
    | '-' :: cs => (true, cs)
    | cs => (false, cs)
  let (whole, cs) ← wholePart? cs
  let (fraction, cs) ← fractionPart? cs
  let (exponent, rest) ← exponentPart? cs
  return (⟨negative, whole, fraction, exponent⟩, rest)

/-! ### Values -/

/-- A character, after blanks. -/
def symbol? (c : Char) (cs : List Char) : Option (List Char) :=
  match skipBlanks cs with
  | d :: rest => if d = c then some rest else none
  | [] => none

def name? (cs : List Char) : Option (Option String × List Char) := do
  let cs ← symbol? '"' cs
  let (name, cs) ← stringBody? cs
  let cs ← symbol? ':' cs
  return (name, cs)

mutual

/-- One value and what follows it; the fuel bounds the number of steps. -/
def value? : (fuel : Nat) → List Char → Option (Json × List Char)
  | 0, _ => none
  | fuel + 1, cs =>
    match skipBlanks cs with
    | 'n' :: 'u' :: 'l' :: 'l' :: rest => some (null, rest)
    | 't' :: 'r' :: 'u' :: 'e' :: rest => some (boolean true, rest)
    | 'f' :: 'a' :: 'l' :: 's' :: 'e' :: rest => some (boolean false, rest)
    | '"' :: rest => (stringBody? rest).map fun (text, rest) => (string text, rest)
    | '[' :: rest =>
      match symbol? ']' rest with
      | some rest => some (array [], rest)
      | none => (items? fuel rest).map fun (items, rest) => (array items, rest)
    | '\x7b' :: rest =>
      match symbol? '\x7d' rest with
      | some rest => some (object [], rest)
      | none => (entries? fuel rest).map fun (entries, rest) => (object entries, rest)
    | cs =>
      let token := cs.takeWhile isNumberChar
      match numberParts? token with
      | some (_, []) => some (number token, cs.dropWhile isNumberChar)
      | _ => none

/-- The items of a list up to its closing bracket; at least one. -/
def items? : (fuel : Nat) → List Char → Option (List Json × List Char)
  | 0, _ => none
  | fuel + 1, cs => do
    let (item, cs) ← value? fuel cs
    match symbol? ',' cs with
    | some cs =>
      let (items, rest) ← items? fuel cs
      return (item :: items, rest)
    | none =>
      let rest ← symbol? ']' cs
      return ([item], rest)

/-- The entries of an object up to its closing brace; at least one. -/
def entries? : (fuel : Nat) → List Char → Option (List (Option String × Json) × List Char)
  | 0, _ => none
  | fuel + 1, cs => do
    let (name, cs) ← name? cs
    let (value, cs) ← value? fuel cs
    match symbol? ',' cs with
    | some cs =>
      let (entries, rest) ← entries? fuel cs
      return ((name, value) :: entries, rest)
    | none =>
      let rest ← symbol? '\x7d' cs
      return ([(name, value)], rest)

end

/-- The value that a text writes.  Each step of the reader takes at least one
    character, so the length of the text is fuel enough. -/
def ofText? (text : List Char) : Option Json := do
  let (value, rest) ← value? (text.length + 1) text
  if (skipBlanks rest).isEmpty then some value else none

end Throughput.Json
