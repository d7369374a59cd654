/-
  Throughput/Toml/Value.lean
  ==========================
  **TOML values.**  A table is a list of entries whose names differ, in the
  order in which they were first named.  An array can have items that no value
  was given for; a run of them is one entry of its list, and `itemAt?` and
  `setItem` count every item of a run.
-/
import Throughput.Association
import Throughput.Number.Binary64

namespace Throughput

/-- A value of a settings file. -/
inductive Toml where
  | string (text : String)
  /-- A date, a time of day or both.  No setting takes one, so it is not kept. -/
  | date
  | integer (value : Int)
  | number (value : Binary64)
  | boolean (value : Bool)
  | array (items : List Toml)
  /-- So many items of an array that have no value. -/
  | missing (count : Nat)
  | table (entries : List (String × Toml))

namespace Toml

/-! ### Tables -/

/-- The entries of a table. -/
abbrev Entries := List (String × Toml)

/-- The entries of a value; none where no table stands. -/
def entriesOf : Option Toml → Entries
  | some (table entries) => entries
  | _ => []

/-! ### Arrays -/

/-- The items of a value; none where no array stands. -/
def itemsOf : Option Toml → List Toml
  | some (array items) => items
  | _ => []

def itemCount : List Toml → Nat
  | [] => 0
  | missing count :: rest => count + itemCount rest
  | _ :: rest => itemCount rest + 1

def itemAt? (place : Nat) : List Toml → Option Toml
  | [] => none
  | missing count :: rest =>
    if place < count then some (missing 1) else itemAt? (place - count) rest
  | item :: rest =>
    match place with
    | 0 => some item
    | place + 1 => itemAt? place rest

/-- A run of items without a value. -/
def gap (count : Nat) : List Toml := if count = 0 then [] else [missing count]

/-- Items with another one at a place.  What lies between the old end and a place
    behind it is missing. -/
def setItem (place : Nat) (item : Toml) : List Toml → List Toml
  | [] => gap place ++ [item]
  | missing count :: rest =>
    if place < count then gap place ++ item :: gap (count - place - 1) ++ rest
    else missing count :: setItem (place - count) item rest
  | old :: rest =>
    match place with
    | 0 => item :: rest
    | place + 1 => old :: setItem place item rest

end Toml

end Throughput
