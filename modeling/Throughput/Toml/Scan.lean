/-
  Throughput/Toml/Scan.lean
  =========================
  **The pieces of a TOML text.**  Blanks, comments and line ends; keys; strings
  in their four forms; numbers.  Every reader takes its piece from the front of
  the text and gives it together with what follows.
-/
import Throughput.Number.Decimal
import Throughput.Number.Word
import Throughput.Text.Blank
import Throughput.Toml.Value

namespace Throughput.Toml

/-! ### Blanks, comments and line ends -/

def isBlank (c : Char) : Bool := c == ' ' || c == '\t'

def skipBlanks (cs : List Char) : List Char := cs.dropWhile isBlank

/-- A character that can stand in a comment or a string as it is: a tab, or any
    that is no control character of ASCII. -/
def isPlain (c : Char) : Bool := c == '\t' || (decide (32 ≤ c.toNat) && c.toNat != 127)

/-- A line end, read away. -/
def newline? : List Char → Option (List Char)
  | '\n' :: rest => some rest
  | '\r' :: '\n' :: rest => some rest
  | _ => none

/-- Blanks and a comment, up to a line end or the end of the text. -/
def lineEnd? (cs : List Char) : Option (List Char) :=
  let rest := match skipBlanks cs with
    | '#' :: rest => rest.dropWhile isPlain
    | rest => rest
  if rest.isEmpty then some [] else newline? rest

/-- Skips blanks, line ends and comments; `comment` tells whether one is open. -/
def skipLines (comment : Bool) : List Char → List Char
  | [] => []
  | '\n' :: rest => skipLines false rest
  | '\r' :: '\n' :: rest => skipLines false rest
  | c :: rest =>
    if comment then (if isPlain c then skipLines true rest else c :: rest)
    else if c = '#' then skipLines true rest
    else if isBlank c then skipLines false rest
    else c :: rest

/-! ### Strings -/

def hexDigit? (c : Char) : Option Nat :=
  if '0' ≤ c ∧ c ≤ '9' then some (c.toNat - 48)
  else if 'a' ≤ c ∧ c ≤ 'f' then some (c.toNat - 87)
  else if 'A' ≤ c ∧ c ≤ 'F' then some (c.toNat - 55)
  else none

def hexNumber? (ds : List Char) : Option Nat :=
  ds.foldlM (fun n d => (hexDigit? d).map (16 * n + ·)) 0

/-- The character with the number that hexadecimal digits write; surrogates and
    numbers beyond Unicode have none. -/
def hexChar? (ds : List Char) : Option Char := do
  let n ← hexNumber? ds
  if n.isValidChar then some (Char.ofNat n) else none

/-- The character that a letter stands for behind a backslash. -/
def shortEscape? : Char → Option Char
  | 'b' => some '\x08'
  | 't' => some '\t'
  | 'n' => some '\n'
  | 'f' => some '\x0c'
  | 'r' => some '\r'
  | '"' => some '"'
  | '\\' => some '\\'
  | _ => none

/-- Puts a character in front of a text that was read. -/
def withChar? (c? : Option Char) (tail? : Option (List Char × List Char)) :
    Option (List Char × List Char) := do
  let c ← c?
  let (text, rest) ← tail?
  return (c :: text, rest)

/-- A string up to its closing double quote. -/
def basicBody? : List Char → Option (List Char × List Char)
  | [] => none
  | '"' :: rest => some ([], rest)
  | '\\' :: 'u' :: a :: b :: c :: d :: rest => withChar? (hexChar? [a, b, c, d]) (basicBody? rest)
  | '\\' :: 'U' :: a :: b :: c :: d :: e :: f :: g :: h :: rest =>
    withChar? (hexChar? [a, b, c, d, e, f, g, h]) (basicBody? rest)
  | '\\' :: e :: rest => withChar? (shortEscape? e) (basicBody? rest)
  | c :: rest => withChar? (some c |>.filter isPlain) (basicBody? rest)

/-- A string without escapes up to its closing single quote. -/
def literalBody? (cs : List Char) : Option (List Char × List Char) :=
  let isContent c := isPlain c && c != '\''
  match cs.dropWhile isContent with
  | '\'' :: rest => some (cs.takeWhile isContent, rest)
  | _ => none

/-- Whether the backslash before these characters joins lines: only blanks stand
    between it and the line end. -/
def joinsLines (cs : List Char) : Bool := (newline? (skipBlanks cs)).isSome

/-- A string over several lines up to three closing quotes; up to two more quotes
    before them belong to the text.  `joining` tells whether a backslash at a
    line end takes away the blanks and line ends that follow. -/
def longBasicBody? (joining : Bool) : List Char → Option (List Char × List Char)
  | [] => none
  | '"' :: '"' :: '"' :: '"' :: '"' :: rest => some (['"', '"'], rest)
  | '"' :: '"' :: '"' :: '"' :: rest => some (['"'], rest)
  | '"' :: '"' :: '"' :: rest => some ([], rest)
  | '\r' :: '\n' :: rest =>
    if joining then longBasicBody? true rest
    else withChar? (some '\n') (longBasicBody? false rest)
  | '\n' :: rest =>
    if joining then longBasicBody? true rest
    else withChar? (some '\n') (longBasicBody? false rest)
  | '\\' :: 'u' :: a :: b :: c :: d :: rest =>
    withChar? (hexChar? [a, b, c, d]) (longBasicBody? false rest)
  | '\\' :: 'U' :: a :: b :: c :: d :: e :: f :: g :: h :: rest =>
    withChar? (hexChar? [a, b, c, d, e, f, g, h]) (longBasicBody? false rest)
  | '\\' :: e :: rest =>
    if joinsLines (e :: rest) then longBasicBody? true (e :: rest)
    else withChar? (shortEscape? e) (longBasicBody? false rest)
  | c :: rest =>
    if joining && isBlank c then longBasicBody? true rest
    else withChar? (some c |>.filter isPlain) (longBasicBody? false rest)

/-- The same between single quotes, without escapes. -/
def longLiteralBody? : List Char → Option (List Char × List Char)
  | [] => none
  | '\'' :: '\'' :: '\'' :: '\'' :: '\'' :: rest => some (['\'', '\''], rest)
  | '\'' :: '\'' :: '\'' :: '\'' :: rest => some (['\''], rest)
  | '\'' :: '\'' :: '\'' :: rest => some ([], rest)
  | '\r' :: '\n' :: rest => withChar? (some '\n') (longLiteralBody? rest)
  | '\n' :: rest => withChar? (some '\n') (longLiteralBody? rest)
  | c :: rest => withChar? (some c |>.filter isPlain) (longLiteralBody? rest)

/-- A text without a line end at its very start. -/
def dropNewline (cs : List Char) : List Char := (newline? cs).getD cs

/-- A string of any of the four forms. -/
def string? : List Char → Option (List Char × List Char)
  | '"' :: '"' :: '"' :: rest => longBasicBody? false (dropNewline rest)
  | '"' :: rest => basicBody? rest
  | '\'' :: '\'' :: '\'' :: rest => longLiteralBody? (dropNewline rest)
  | '\'' :: rest => literalBody? rest
  | _ => none

/-! ### Keys -/

def isBare (c : Char) : Bool := c.isAlphanum || c == '-' || c == '_'

/-- One part of a key: a bare word, or a string on one line. -/
def keyPart? : List Char → Option (String × List Char)
  | '"' :: rest => (basicBody? rest).map fun (text, rest) => (String.ofList text, rest)
  | '\'' :: rest => (literalBody? rest).map fun (text, rest) => (String.ofList text, rest)
  | cs =>
    let word := cs.takeWhile isBare
    if word.isEmpty then none else some (String.ofList word, cs.dropWhile isBare)

/-- A key of at most the given number of parts, with points between them. -/
def keyOf? : (parts : Nat) → List Char → Option (List String × List Char)
  | 0, _ => none
  | parts + 1, cs => do
    let (part, rest) ← keyPart? (skipBlanks cs)
    match skipBlanks rest with
    | '.' :: rest =>
      let (more, rest) ← keyOf? parts rest
      return (part :: more, rest)
    | rest => return ([part], rest)

/-- How deep keys, arrays and inline tables may go. -/
def depthLimit : Nat := 79

def key? (cs : List Char) : Option (List String × List Char) := keyOf? depthLimit cs

/-! ### Numbers and other words -/

/-- A run of digits in which single underscores stand between digits, without
    the underscores. -/
def run? (isDigit : Char → Bool) (cs : List Char) : Option (List Char) :=
  let parts := Text.pieces (· == '_') cs
  if parts.all fun part => !part.isEmpty && part.all isDigit then some parts.flatten else none

/-- A whole number, which has 64 bits. -/
def integerInRange? (n : Int) : Option Toml :=
  if Word.fitsSigned 64 n then some (integer n) else none

/-- A digit of a number system with at most sixteen digits, as `0` to `9` and
    letters of either case. -/
def isDigitBelow (base : Nat) (c : Char) : Bool :=
  match hexDigit? c with
  | some d => decide (d < base)
  | none => false

/-- A number behind the mark of its number system. -/
def basedInteger? (base : Nat) (cs : List Char) : Option Toml := do
  let ds ← run? (isDigitBelow base) cs
  integerInRange? (ds.foldl (fun n d => base * n + (hexDigit? d).getD 0) 0 : Nat)

/-- The digits before a point: no zero in front of others. -/
def wholeRun? (cs : List Char) : Option (List Char) := do
  let ds ← run? Decimal.isDigit cs
  if cs.length ≠ 1 ∧ cs.head? = some '0' then none else some ds

/-- Everything from the first character of a class on, cut off. -/
def splitBefore (p : Char → Bool) (cs : List Char) : List Char × List Char :=
  (cs.takeWhile fun c => !p c, cs.dropWhile fun c => !p c)

def isExponentMark (c : Char) : Bool := c == 'e' || c == 'E'

/-- The fraction of a number with its point; nothing stands for none. -/
def fractionRun? : List Char → Option (List Char)
  | [] => some []
  | '.' :: cs => (run? Decimal.isDigit cs).map ('.' :: ·)
  | _ => none

/-- The exponent of a number with its mark; nothing stands for none. -/
def exponentRun? : List Char → Option (List Char)
  | [] => some []
  | mark :: '+' :: cs => (run? Decimal.isDigit cs).map fun ds => mark :: '+' :: ds
  | mark :: '-' :: cs => (run? Decimal.isDigit cs).map fun ds => mark :: '-' :: ds
  | mark :: cs => (run? Decimal.isDigit cs).map (mark :: ·)

/-- A decimal number.  With a fraction or an exponent it is a number with a
    point, which must not exceed all numbers; below all of them it is the
    negative infinity. -/
def decimal? (cs : List Char) : Option Toml := do
  let (negative, body) := Decimal.splitSign cs
  let (mantissa, exponent) := splitBefore isExponentMark body
  let (whole, fraction) := splitBefore (· == '.') mantissa
  let whole ← wholeRun? whole
  let fraction ← fractionRun? fraction
  let exponent ← exponentRun? exponent
  if fraction.isEmpty && exponent.isEmpty then
    let n : Int := Decimal.ofDigits whole
    integerInRange? (if negative then -n else n)
  else
    let magnitude ← Binary64.ofText? (whole ++ fraction ++ exponent)
    if negative then some (number magnitude.neg)
    else if magnitude.isInfinite then none
    else some (number magnitude)

/-- The value of a word that is no string. -/
def word? (cs : List Char) : Option Toml :=
  match cs with
  | '0' :: 'x' :: ds => basedInteger? 16 ds
  | '0' :: 'o' :: ds => basedInteger? 8 ds
  | '0' :: 'b' :: ds => basedInteger? 2 ds
  | _ =>
    if cs = "true".toList then some (boolean true)
    else if cs = "false".toList then some (boolean false)
    else
      let (negative, body) := Decimal.splitSign cs
      if body = "inf".toList then some (number (.infinity negative))
      else if body = "nan".toList then some (number (.nan negative))
      else decimal? cs

/-- A character of a word: such characters never follow one another across the
    end of a value. -/
def isWordChar (c : Char) : Bool := isBare c || c == '.' || c == '+'

end Throughput.Toml
