/-
  Throughput/Environment/File.lean
  ================================
  **Files of variables.**  A line sets a variable, `NAME=text`, perhaps with
  `export` in front.  The text may be quoted: between single quotes everything
  stands for itself, between double quotes and outside of quotes a backslash
  escapes and `$NAME` is another variable.  Quoted text and escaped line ends
  reach over several lines.  Reading stops at the first line that is not
  understood, and variables that are set already stay as they are.  A text that
  no variable can have spoils the whole file.
-/
import Throughput.Environment.Basic
import Throughput.Text.Alphanumeric
import Throughput.Text.Blank
import Throughput.Text.Lines

namespace Throughput.Environment

/-! ### Lines that belong together -/

/-- Where in a line of a file a character stands. -/
inductive Spot where
  | plain
  /-- Behind white space outside of quotes, where a comment can begin. -/
  | blank
  /-- Behind a backslash outside of quotes. -/
  | escaped
  | single
  | singleEscaped
  | double
  | doubleEscaped
  deriving DecidableEq, Repr

namespace Spot

/-- The place of the next character; nothing where a comment begins. -/
def next? : Spot → Char → Option Spot
  | blank, '#' => none
  | blank, '\\' => some escaped
  | blank, '"' => some double
  | blank, '\'' => some single
  | blank, _ => some plain
  | escaped, _ => some plain
  | plain, '\\' => some escaped
  | plain, '"' => some double
  | plain, '\'' => some single
  | plain, c => some (if Text.isBlank c && c != '\n' && c != '\r' then blank else plain)
  | double, '\\' => some doubleEscaped
  | double, '"' => some plain
  | double, _ => some double
  | doubleEscaped, _ => some double
  | single, '\\' => some singleEscaped
  | single, '\'' => some plain
  | single, _ => some single
  | singleEscaped, _ => some single

/-- The characters in front of a comment, and the place behind them; nothing is
    the place behind which a comment was found. -/
def scan (here : Spot) : List Char → List Char × Option Spot
  | [] => ([], some here)
  | c :: rest =>
    match here.next? c with
    | none => ([], none)
    | some spot =>
      let (before, last) := scan spot rest
      (c :: before, last)

end Spot

/-- The lines of a file, each with the newline that ends it; `none` is a line that
    is no text. -/
def physicalLines (bytes : List UInt8) : List (Option (List Char)) :=
  let parts := Text.pieces (· == Text.newline) bytes
  let last := parts.getLast?.filter fun part => !part.isEmpty
  (parts.dropLast.map (· ++ [Text.newline]) ++ last.toList).map Text.utf8?

/-- A line without its end. -/
def withoutEnd (cs : List Char) : List Char :=
  match cs.reverse with
  | '\n' :: '\r' :: rest => rest.reverse
  | '\n' :: rest => rest.reverse
  | _ => cs

/-- A line of the file, over as many lines of its text as belong together; `none`
    is a line that the file ends in. -/
abbrev FileLine := Option (List Char)

/-- Joins lines that belong together.  `before` are the lines of one that goes on,
    the last one first, and `spot` is where they broke off. -/
def joinLines (before : List (List Char)) (spot : Spot) :
    List (Option (List Char)) → List FileLine
  | [] => if spot = .plain then [] else [none]
  | none :: _ => [none]
  | some line :: rest =>
    if before.isEmpty && (line.dropWhile Text.isBlank).head? = some '#' then
      joinLines [] .plain rest
    else
      match spot.scan line with
      | (_, some .plain) =>
        some (withoutEnd (line :: before).reverse.flatten) :: joinLines [] .plain rest
      | (front, none) => some (front :: before).reverse.flatten :: joinLines [] .plain rest
      | (_, some other) => joinLines (line :: before) other rest

/-! ### Values -/

/-- What the next character of a value is read as. -/
inductive Mode where
  | text
  | escape
  /-- Between single quotes. -/
  | verbatim
  /-- Behind white space that ended the value. -/
  | ended
  /-- In the name of a variable, the characters read so far, the last one first. -/
  | name (read : List Char)
  /-- In the name of a variable between braces. -/
  | bracedName (read : List Char)
  deriving DecidableEq, Repr

/-- A value of which some characters are read. -/
structure Value where
  /-- The characters of the text so far, the last one first. -/
  read : List Char
  /-- Between double quotes. -/
  quoted : Bool
  mode : Mode
  deriving DecidableEq, Repr

namespace Value

def empty : Value := ⟨[], false, .text⟩

def push (v : Value) (c : Char) : Value := { v with read := c :: v.read, mode := .text }

/-- Puts in the text of a variable, whose name is read; one that is not set has none. -/
def substitute (env : Environment) (v : Value) (name : List Char) : Value :=
  { v with read := ((env.text? name.reverse).getD []).reverse ++ v.read, mode := .text }

/-- The character that one behind a backslash stands for. -/
def escaped? : Char → Option Char
  | 'n' => some '\n'
  | c => if c = '\\' ∨ c = '\'' ∨ c = '"' ∨ c = '$' ∨ c = ' ' then some c else none

/-- Takes up a character of plain or quoted text. -/
def pushText (v : Value) (c : Char) : Value :=
  if c = '$' then { v with mode := .name [] }
  else if c = '\\' then { v with mode := .escape }
  else if c = '"' then { v with quoted := !v.quoted }
  else if v.quoted then v.push c
  else if c = '\'' then { v with mode := .verbatim }
  else if c = ' ' ∨ c = '\t' then { v with mode := .ended }
  else v.push c

/-- Takes up the character behind the name of a variable. -/
def endName (env : Environment) (v : Value) (name : List Char) (c : Char) : Value :=
  if c = '\x7b' ∧ name = [] then { v with mode := .bracedName [] }
  else
    let v := v.substitute env name
    if c = '$' then { v with mode := .name [] } else v.push c

/-- The value behind its last character, unless a quote or brace is open. -/
def finish? (env : Environment) (v : Value) : Option (List Char) :=
  match v.mode with
  | .verbatim | .bracedName _ => none
  | .name name => if v.quoted then none else some (v.substitute env name).read.reverse
  | _ => if v.quoted then none else some v.read.reverse

/-- The text of a value.  A comment may follow behind white space. -/
def complete? (env : Environment) (v : Value) : List Char → Option (List Char)
  | [] => v.finish? env
  | c :: rest =>
    match v.mode with
    | .text => complete? env (v.pushText c) rest
    | .escape =>
      match escaped? c with
      | some c => complete? env (v.push c) rest
      | none => none
    | .verbatim =>
      if c = '\'' then complete? env { v with mode := .text } rest
      else complete? env { v with read := c :: v.read } rest
    | .ended =>
      if c = ' ' ∨ c = '\t' then complete? env v rest
      else if c = '#' then v.finish? env
      else none
    | .name name =>
      if Text.isAlphanumeric c then complete? env { v with mode := .name (c :: name) } rest
      else complete? env (v.endName env name c) rest
    | .bracedName name =>
      if c = '\x7d' then complete? env (v.substitute env name) rest
      else complete? env { v with mode := .bracedName (c :: name) } rest

end Value

/-! ### Lines -/

def skipBlanks (cs : List Char) : List Char := cs.dropWhile Text.isBlank

def isNameChar (c : Char) : Bool := c.isAlphanum || c == '_' || c == '.'

/-- A name, which begins with a letter or an underscore, and what follows it. -/
def name? (cs : List Char) : Option (String × List Char) :=
  match cs with
  | [] => none
  | c :: _ =>
    if c.isAlpha || c == '_' then
      some (String.ofList (cs.takeWhile isNameChar), skipBlanks (cs.dropWhile isNameChar))
    else none

/-- What follows an equals sign. -/
def equals? : List Char → Option (List Char)
  | '=' :: rest => some (skipBlanks rest)
  | _ => none

/-- A name and what follows its equals sign.  A name that follows `export` is the
    one that is set, unless `export` is itself set. -/
def assignment? (cs : List Char) : Option (String × List Char) := do
  let (name, rest) ← name? cs
  match equals? rest with
  | some value => return (name, value)
  | none =>
    if name = "export" then
      let (name, rest) ← name? rest
      return (name, ← equals? rest)
    else none

/-- The variable that a line sets, if it sets one; nothing if the line is not
    understood. -/
def setting? (env : Environment) (cs : List Char) : Option (Option (String × String)) :=
  let line := skipBlanks (Text.trimEnd cs)
  if line.isEmpty ∨ line.head? = some '#' then some none
  else do
    let (name, value) ← assignment? line
    if value.isEmpty ∨ value.head? = some '#' then return some (name, "")
    else return some (name, String.ofList (← Value.empty.complete? env value))

/-- Takes up lines until one is not understood; nothing if one presets a text that
    no variable can have. -/
def lines : Environment → List FileLine → Option Environment
  | env, some cs :: rest =>
    match setting? env cs with
    | none => some env
    | some none => lines env rest
    | some (some (name, text)) =>
      match env.preset? name text with
      | none => none
      | some env => lines env rest
  | env, _ => some env

/-- The environment with the variables that a file sets.  The file may begin with
    the mark of its encoding. -/
def withFile (env : Environment) (bytes : List UInt8) : Option Environment :=
  let bytes := match bytes with
    | 0xef :: 0xbb :: 0xbf :: rest => rest
    | _ => bytes
  lines env (joinLines [] .plain (physicalLines bytes))

end Throughput.Environment
