/-
  Throughput/Storage/FileTree.lean
  ================================
  **Trees of files.**  A tree is what stands below the root; one of its places
  is the current directory.  A path is walked step by step, and every step but
  the last has to find a directory.  Names and paths have a greatest length.
  Operations fail as a file system lets them fail, and an operation that fails
  changes nothing, except that `makeDirectories` keeps the directories made
  before it failed.
-/
import Throughput.Association
import Throughput.Storage.Files

namespace Throughput

/-! ### Places -/

/-- A place in a tree: the names on the way from the root to it, the innermost
    first. -/
abbrev Place := List String

/-- What becomes of the bytes that are written to a device.  It holds nothing. -/
inductive Device where
  /-- They are lost. -/
  | null
  /-- There is no space for them. -/
  | full
  /-- They are printed. -/
  | output
  deriving DecidableEq, Repr

/-- What stands at a place. -/
inductive Node where
  | directory
  | file (bytes : List UInt8)
  | device (kind : Device)
  deriving DecidableEq

/-- Files and directories, and the place that relative paths start from. -/
structure FileTree where
  current : Place
  nodes : List (Place × Node)
  deriving DecidableEq

/-- One step of a walk along a path. -/
inductive PathStep where
  | enter (name : String)
  | stay
  | leave
  deriving DecidableEq, Repr

namespace Path

/-- The step that a text between slashes stands for, if it is one. -/
def stepOf? (segment : List Char) : Option PathStep :=
  if segment = [] then none
  else if segment = ['.'] then some .stay
  else if segment = ['.', '.'] then some .leave
  else some (.enter (String.ofList segment))

def steps (p : Path) : List PathStep :=
  (Text.pieces (· == '/') p.text.toList).filterMap stepOf?

/-- Whether a path says by a slash at its end that it is a directory. -/
def endsInSlash (p : Path) : Bool := p.text.toList.getLast? == some '/'

end Path

namespace FileTree

/-- What stands at a place; at the root, a directory does. -/
def node? (t : FileTree) : Place → Option Node
  | [] => some .directory
  | place => t.nodes.lookup place

def put (t : FileTree) (place : Place) (node : Node) : FileTree :=
  { t with nodes := store place node t.nodes }

theorem node?_put (t : FileTree) (written place : Place) (node : Node) (h : place ≠ []) :
    (t.put written node).node? place = if place = written then some node else t.node? place := by
  cases place with
  | nil => exact absurd rfl h
  | cons name outer => simp [node?, put, lookup_store, beq_iff_eq]

/-! ### Walking -/

/-- The greatest number of bytes that a name can have. -/
def longestName : Nat := 255

/-- The greatest number of bytes that a path can have. -/
def longestPath : Nat := 4095

/-- The place that steps lead to.  Something or nothing may stand there.  The root
    is the directory around itself. -/
def walk (t : FileTree) : (here : Place) → List PathStep → Except IoError Place
  | here, [] => .ok here
  | here, step :: rest =>
    match t.node? here with
    | none => .error .notFound
    | some .directory =>
      match step with
      | .stay => walk t here rest
      | .leave => walk t here.tail rest
      | .enter name =>
        if longestName < name.utf8ByteSize then .error .nameTooLong else walk t (name :: here) rest
    | some _ => .error .notADirectory

/-- The place that a path starts from, if it is one that can be walked. -/
def start (t : FileTree) (p : Path) : Except IoError Place :=
  if p.text.toList.contains '\x00' then .error .zeroInName
  else if p.text.isEmpty then .error .notFound
  else if longestPath < p.text.utf8ByteSize then .error .nameTooLong
  else .ok (if p.isAbsolute then [] else t.current)

/-- The place that a path names. -/
def placeOf (t : FileTree) (p : Path) : Except IoError Place := do
  t.walk (← t.start p) p.steps

/-! ### Reading -/

/-- Opens and reads what a path names. -/
def open? (t : FileTree) (p : Path) : Except IoError Source := do
  let place ← t.placeOf p
  match t.node? place with
  | none => throw .notFound
  | some .directory => return ⟨[], some .isDirectory⟩
  | some (.file bytes) => if p.endsInSlash then throw .notADirectory else return ⟨bytes, none⟩
  | some (.device _) => if p.endsInSlash then throw .notADirectory else return ⟨[], none⟩

def isFile (t : FileTree) (p : Path) : Bool :=
  match t.placeOf p with
  | .ok place =>
    match t.node? place with
    | some (.file _) => !p.endsInSlash
    | _ => false
  | .error _ => false

/-- The files that can be read. -/
def read (t : FileTree) : Files := ⟨t.open?, t.isFile⟩

/-! ### Writing -/

/-- The place at which a file can be written under a path.  A path that ends in a
    slash names a directory, once what is in front of its last name is one. -/
def filePlace (t : FileTree) (p : Path) : Except IoError Place := do
  if p.endsInSlash then
    let _ ← t.walk (← t.start p) (p.steps.dropLast ++ [.stay])
    throw .isDirectory
  let place ← t.placeOf p
  if t.node? place = some .directory then throw .isDirectory
  return place

/-- Makes a file with the given bytes, or gives them to the one that is there. -/
def write (t : FileTree) (p : Path) (bytes : List UInt8) : Except IoError FileTree := do
  let place ← t.filePlace p
  match t.node? place with
  | some (.device .full) => if bytes.isEmpty then return t else throw .noSpace
  | some (.device _) => return t
  | _ => return t.put place (.file bytes)

/-- Writes over the beginning of a file; what reaches beyond the new bytes stays. -/
def overwrite (t : FileTree) (p : Path) (bytes : List UInt8) : Except IoError FileTree := do
  let place ← t.filePlace p
  match t.node? place with
  | some (.file old) => return t.put place (.file (bytes ++ old.drop bytes.length))
  | _ => t.write p bytes

/-- Whether what is written under a path is printed. -/
def isOutput (t : FileTree) (p : Path) : Bool :=
  match t.filePlace p with
  | .ok place => t.node? place == some (.device .output)
  | .error _ => false

/-! ### Directories -/

/-- Makes the directories that are missing along steps.  A file in the way is
    reported as one that exists already where it stands last or `below` a directory
    that had to be made. -/
def makeAlong (t : FileTree) (below : Bool) : (here : Place) → List PathStep →
    Except IoError Unit × FileTree
  | here, steps =>
    match t.node? here with
    | some (.file _) | some (.device _) =>
      (.error (if below || steps.isEmpty then .fileExists else .notADirectory), t)
    | found =>
      let made := found.isNone
      let t := if made then t.put here .directory else t
      match steps with
      | [] => (.ok (), t)
      | .stay :: rest => makeAlong t (below || made) here rest
      | .leave :: rest => makeAlong t (below || made) here.tail rest
      | .enter name :: rest =>
        if longestName < name.utf8ByteSize then (.error .nameTooLong, t)
        else makeAlong t (below || made) (name :: here) rest

/-- Makes a directory and all that are missing around it.  The empty path stands
    for the current directory. -/
def makeDirectories (t : FileTree) (p : Path) : Except IoError Unit × FileTree :=
  if p.text.isEmpty then (.ok (), t)
  else
    match t.start p with
    | .ok here => t.makeAlong false here p.steps
    | .error e => (.error e, t)

end FileTree

end Throughput
