/-
  Throughput/Toml/Reader.lean
  ===========================
  **Reading TOML.**  A document is read line by line into a draft, which knows
  how each table came to be: a table may be headed once, dotted keys extend
  only what dotted keys made, and what is written inline is closed.  `ofText?`
  reads a whole document.
-/
import Throughput.Toml.Moment
import Throughput.Toml.Scan

namespace Throughput.Toml

/-! ### Drafts -/

/-- How a table came to be. -/
inductive Origin where
  /-- It stands on the way to a header. -/
  | implied
  /-- It has a header, or is the document itself. -/
  | headed
  /-- A dotted key made it. -/
  | dotted
  deriving DecidableEq, Repr

/-- A part of a document that is still being read. -/
inductive Draft where
  | value (value : Toml)
  | table (origin : Origin) (entries : List (String × Draft))
  /-- Tables under one header in double brackets.  The last one is open; the one
      before it is the first of the earlier ones. -/
  | tables (earlier : List (List (String × Draft))) (last : List (String × Draft))

namespace Draft

abbrev Entries := List (String × Draft)

mutual

/-- The value of a draft that is complete. -/
def toToml : Draft → Toml
  | value v => v
  | table _ entries => .table (entriesToToml entries)
  | tables earlier last =>
    .array (.table (entriesToToml last) :: tablesToToml earlier).reverse

def entriesToToml : List (String × Draft) → List (String × Toml)
  | [] => []
  | (name, draft) :: rest => (name, draft.toToml) :: entriesToToml rest

def tablesToToml : List (List (String × Draft)) → List Toml
  | [] => []
  | entries :: rest => .table (entriesToToml entries) :: tablesToToml rest

end

/-- Changes the table that headers lead to.  Missing tables are made on the way,
    and of tables in double brackets the last one is entered. -/
def atHeader (change : Entries → Option Entries) : List String → Entries → Option Entries
  | [], entries => change entries
  | name :: path, entries =>
    match entries.lookup name with
    | none => (atHeader change path []).map fun inner =>
        store name (table .implied inner) entries
    | some (value _) => none
    | some (tables earlier last) => (atHeader change path last).map fun inner =>
        store name (tables earlier inner) entries
    | some (table origin inner) => (atHeader change path inner).map fun inner =>
        store name (table origin inner) entries

/-- Adds a value that was not there. -/
def addNew (name : String) (v : Toml) (entries : Entries) : Option Entries :=
  match entries.lookup name with
  | none => some (store name (value v) entries)
  | some _ => none

/-- Adds a value under a dotted key.  The table that takes it up was made by
    dotted keys, and no table on the way has a header. -/
def addDotted (v : Toml) : List String → Entries → Option Entries
  | [], _ => none
  | [name], entries => addNew name v entries
  | name :: next :: path, entries =>
    let rest := next :: path
    match entries.lookup name with
    | none => (addDotted v rest []).map fun inner => store name (table .dotted inner) entries
    | some (value _) => none
    | some (tables earlier last) =>
      if path.isEmpty then none
      else (addDotted v rest last).map fun inner => store name (tables earlier inner) entries
    | some (table origin inner) =>
      if origin = .headed ∨ (path.isEmpty ∧ origin ≠ .dotted) then none
      else (addDotted v rest inner).map fun inner => store name (table origin inner) entries

/-- Gives a table its header; it has had none.  With its header a table that was
    only implied takes its place behind all others. -/
def openTable (name : String) (entries : Entries) : Option Entries :=
  let others := entries.filter (·.1 != name)
  match entries.lookup name with
  | none => some (others ++ [(name, table .headed [])])
  | some (table .implied inner) => some (others ++ [(name, table .headed inner)])
  | some _ => none

/-- Opens the next table under a header in double brackets. -/
def openNext (name : String) (entries : Entries) : Option Entries :=
  match entries.lookup name with
  | none => some (store name (tables [] []) entries)
  | some (tables earlier last) => some (store name (tables (last :: earlier) []) entries)
  | some _ => none

end Draft

/-! ### Values -/

/-- The items of an array up to its closing bracket; a comma may follow the last. -/
def items? (read? : List Char → Option (Toml × List Char)) :
    (fuel : Nat) → List Char → Option (List Toml × List Char)
  | 0, _ => none
  | fuel + 1, cs =>
    match skipLines false cs with
    | ']' :: rest => some ([], rest)
    | cs => do
      let (item, cs) ← read? cs
      match skipLines false cs with
      | ',' :: cs =>
        let (items, rest) ← items? read? fuel cs
        return (item :: items, rest)
      | ']' :: rest => return ([item], rest)
      | _ => none

/-- A key, the equals sign and a value, with blanks between them. -/
def assignment? (read? : List Char → Option (Toml × List Char)) (cs : List Char) :
    Option ((List String × Toml) × List Char) := do
  let (key, cs) ← key? cs
  match cs with
  | '=' :: cs =>
    let (v, rest) ← read? (skipBlanks cs)
    return ((key, v), rest)
  | _ => none

/-- The assignments of an inline table up to its closing brace; at least one. -/
def assignments? (read? : List Char → Option (Toml × List Char)) :
    (fuel : Nat) → Draft.Entries → List Char → Option (Draft.Entries × List Char)
  | 0, _, _ => none
  | fuel + 1, entries, cs => do
    let ((key, v), cs) ← assignment? read? cs
    let entries ← Draft.addDotted v key entries
    match skipBlanks cs with
    | ',' :: cs => assignments? read? fuel entries cs
    | '\x7d' :: rest => return (entries, rest)
    | _ => none

/-- A value in which arrays and inline tables nest at most `depth` deep. -/
def value? : (depth : Nat) → List Char → Option (Toml × List Char)
  | 0, cs => scalar? cs
  | depth + 1, cs =>
    match cs with
    | '[' :: rest =>
      (items? (value? depth) (rest.length + 1) rest).map fun (items, rest) => (array items, rest)
    | '\x7b' :: rest =>
      match skipBlanks rest with
      | '\x7d' :: rest => some (table [], rest)
      | _ =>
        (assignments? (value? depth) (rest.length + 1) [] rest).map fun (entries, rest) =>
          (table (Draft.entriesToToml entries), rest)
    | cs => scalar? cs
where
  /-- A string, a date or a word. -/
  scalar? (cs : List Char) : Option (Toml × List Char) :=
    match string? cs with
    | some (text, rest) => some (string (String.ofList text), rest)
    | none =>
      match date? cs with
      | some found => some found
      | none => (word? (cs.takeWhile isWordChar)).map fun v => (v, cs.dropWhile isWordChar)

/-! ### Documents -/

/-- What was read of a document, and the table that the next lines belong to. -/
structure Progress where
  entries : Draft.Entries
  header : List String

namespace Progress

def start : Progress := ⟨[], []⟩

def assign (p : Progress) (key : List String) (v : Toml) : Option Progress :=
  (Draft.atHeader (Draft.addDotted v key) p.header p.entries).map fun entries =>
    { p with entries }

/-- Takes up a header, given what it does to the table that its last name is in. -/
def open? (p : Progress) (change : String → Draft.Entries → Option Draft.Entries)
    (key : List String) : Option Progress := do
  let name ← key.getLast?
  let entries ← Draft.atHeader (change name) key.dropLast p.entries
  return ⟨entries, key⟩

/-- Takes up one line, or a value over several lines. -/
def line? (p : Progress) (cs : List Char) : Option (Progress × List Char) :=
  match cs with
  | '[' :: '[' :: cs => do
    let (key, cs) ← key? cs
    match cs with
    | ']' :: ']' :: cs =>
      let rest ← lineEnd? cs
      return (← p.open? Draft.openNext key, rest)
    | _ => none
  | '[' :: cs => do
    let (key, cs) ← key? cs
    match cs with
    | ']' :: cs =>
      let rest ← lineEnd? cs
      return (← p.open? Draft.openTable key, rest)
    | _ => none
  | cs => do
    let ((key, v), cs) ← assignment? (value? depthLimit) cs
    let rest ← lineEnd? cs
    return (← p.assign key v, rest)

end Progress

/-- Takes up all lines; each takes at least one character, which bounds the fuel. -/
def lines? : (fuel : Nat) → Progress → List Char → Option Progress
  | 0, _, _ => none
  | fuel + 1, p, cs =>
    match skipLines false cs with
    | [] => some p
    | cs => do
      let (p, rest) ← p.line? cs
      lines? fuel p rest

/-- The mark that may stand before a text to tell its encoding. -/
def byteOrderMark : Char := Char.ofNat 0xfeff

/-- The entries of a document, which is a table that stands for no date. -/
def ofText? (text : List Char) : Option Entries := do
  let text := match text with
    | c :: rest => if c = byteOrderMark then rest else text
    | [] => []
  let p ← lines? (text.length + 1) .start text
  match ← (table (Draft.entriesToToml p.entries)).withDates? with
  | table entries => return entries
  | _ => none

end Throughput.Toml
