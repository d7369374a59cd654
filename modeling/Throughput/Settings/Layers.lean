/-
  Throughput/Settings/Layers.lean
  ===============================
  **Layers of settings.**  The entries of a file come first and the variables
  of the environment are laid over them.  A key leads into tables by points and
  to items of arrays by numbers in brackets; letter case does not matter.  A
  table that is laid over another one is merged into it, and everything else
  takes the place of what was there.
-/
import Throughput.Environment.Basic
import Throughput.Failure
import Throughput.Number.Decimal
import Throughput.Number.Word
import Throughput.Text.Blank
import Throughput.Toml.Value

namespace Throughput

namespace Toml

/-! ### Keys -/

/-- The lower-case form of a character of a key.  Of the characters behind ASCII
    the kelvin sign alone has a letter of ASCII as its lower-case form, and no
    setting has another letter in its name. -/
def lowerKeyChar (c : Char) : Char := if c = '\u212a' then 'k' else lowerAscii c

def lowerKey (key : String) : String := String.ofList (key.toList.map lowerKeyChar)

/-- One step of the path that a key writes: to the entry of a table, or to the item
    of an array, counted from the end if the number is negative. -/
inductive KeyStep where
  | entry (name : String)
  | item (index : Int)
  deriving DecidableEq, Repr

/-- A character that a name in a path can have. -/
def isPathChar (c : Char) : Bool := c.isAlphanum || c == ' ' || c == '_' || c == '-'

/-- A character that may stand around a number in brackets. -/
def isBracketBlank (c : Char) : Bool := c == ' ' || c == '\t'

/-- A number between brackets, with what stands behind the opening one. -/
def index? (cs : List Char) : Option Int :=
  match cs.reverse with
  | ']' :: inner =>
    let written := (inner.dropWhile isBracketBlank).reverse.dropWhile isBracketBlank
    if written.head? = some '+' then none
    else (Decimal.signed? written).filter (Word.fitsSigned 64)
  | _ => none

/-- The steps of a part of a key between points: a name and numbers in brackets. -/
def partSteps? (part : List Char) : Option (List KeyStep) :=
  match Text.pieces (· == '[') part with
  | [] => none
  | name :: brackets =>
    if !name.isEmpty && name.all isPathChar then do
      let indices ← brackets.mapM index?
      return .entry (String.ofList name) :: indices.map .item
    else none

/-- The path that a key writes; a key that writes none is a name. -/
def path (key : String) : List KeyStep :=
  let key := lowerKey key
  match (Text.pieces (· == '.') key.toList).mapM partSteps? with
  | some parts => parts.flatten
  | none => [.entry key]

/-! ### Laying values over others -/

mutual

/-- Lays a value over what stands under a name. -/
def lay (name : String) : Toml → Entries → Entries
  | table [], entries =>
    match entries.lookup name with
    | some _ => entries
    | none => store name (table []) entries
  | table (e :: more), entries =>
    store name (table (layAll (e :: more) (entriesOf (entries.lookup name)))) entries
  | value, entries => store name value entries

/-- Lays entries over others, one after another. -/
def layAll : List (String × Toml) → Entries → Entries
  | [], entries => entries
  | (name, value) :: rest, entries => layAll rest (lay (lowerKey name) value entries)

end

/-- The greatest number of items that keys lead to. -/
def mostItems : Nat := Word.count 28

/-- The place of an item in an array of so many items. -/
def place? (size : Nat) (index : Int) : Option Nat :=
  let place := if index < 0 then size + index else index
  if 0 ≤ place ∧ place < mostItems then some place.toNat else none

/-- Lays a value over what a path leads to.  What is no table or array where one is
    needed gives way to an empty one. -/
def layAt : (path : List KeyStep) → Toml → Option Toml → Except SettingsFault Toml
  | [], value, _ => .ok value
  | [.entry name], value, old => .ok (table (lay name value (entriesOf old)))
  | .entry name :: next :: path, value, old => do
    let inner ← layAt (next :: path) value ((entriesOf old).lookup name)
    return table (store name inner (entriesOf old))
  | .item index :: path, value, old =>
    match place? (itemCount (itemsOf old)) index with
    | none => .error .outsideArray
    | some place => do
      let inner ← layAt path value (itemAt? place (itemsOf old))
      return array (setItem place inner (itemsOf old))

/-- Lays a value over what a key leads to. -/
def layKey (entries : Entries) (key : String) (value : Toml) : Except SettingsFault Entries := do
  return entriesOf (some (← layAt (path key) value (some (table entries))))

/-! ### Variables -/

/-- How the name of a variable for a setting begins, in any letter case. -/
def variableStart : List Char := "benchlog_".toList

/-- The key that a variable sets: two underscores stand for a point. -/
def variableKey? (name : String) : Option String :=
  let name := (lowerKey name).toList
  if variableStart.isPrefixOf name then
    some (Text.joinWith "."
      ((Text.piecesAt ['_', '_'] (name.drop variableStart.length)).map String.ofList))
  else none

/-- The key whose variable can hold a list. -/
def listKey : String := "percentiles"

/-- The value that a variable writes: a truth value, a whole number of 64 bits, a
    number, a list for the key that can hold one, or else a text. -/
def ofVariable (key text : String) : Toml :=
  let cs := text.toList
  let word := String.ofList (cs.map lowerAscii)
  if word = "true" then boolean true
  else if word = "false" then boolean false
  else
    match (Decimal.signed? cs).filter (Word.fitsSigned 64) with
    | some n => integer n
    | none =>
      match Binary64.ofText? cs with
      | some x => number x
      | none =>
        if key = listKey then
          array ((Text.pieces (· == ',') cs).map fun piece => string (String.ofList piece))
        else string text

/-- Lays a variable over entries, if it is one that sets something. -/
def layVariable (entries : Entries) (variable_ : String × String) : Except SettingsFault Entries :=
  match variableKey? variable_.1 with
  | some key => layKey entries key (ofVariable key variable_.2)
  | none => .ok entries

/-- The entries of a file under the variables of the environment. -/
def layers (file : Entries) (environment : Environment) : Except SettingsFault Entries := do
  let base ← file.foldlM (fun entries (key, value) => layKey entries key value) []
  environment.foldlM layVariable base

end Toml

end Throughput
