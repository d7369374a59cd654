/-
  Throughput/Input/Path.lean
  ==========================
  **Paths.**  A path is kept as it is written, but what it means are its
  components: repeated slashes, a slash at the end and a `.` other than the
  first name nothing.  Paths are compared by components; `parent?` cuts the
  text itself, so the directory of a path keeps its spelling.
-/
import Throughput.Text.Blank

namespace Throughput

inductive Component where
  | root
  | current
  | up
  | name (name : String)
  deriving DecidableEq, Repr

namespace Component

/-- Kinds of components in their order. -/
def kind : Component → Nat
  | root => 0
  | current => 1
  | up => 2
  | name _ => 3

/-- The order of components: by kind, then by name. -/
def before : Component → Component → Bool
  | name a, name b => decide (a < b)
  | a, b => decide (a.kind < b.kind)

/-- The component that a text between slashes is, if it is one.  A single dot is
    only at the very start of a path. -/
def ofSegment? (first : Bool) (segment : List Char) : Option Component :=
  if segment = [] then none
  else if segment = ['.'] then (if first then some current else none)
  else if segment = ['.', '.'] then some up
  else some (name (String.ofList segment))

/-- The lexicographic order of component lists. -/
def listBefore : List Component → List Component → Bool
  | [], [] => false
  | [], _ :: _ => true
  | _ :: _, [] => false
  | a :: as, b :: bs => a.before b || (decide (a = b) && listBefore as bs)

end Component

structure Path where
  text : String
  deriving DecidableEq, Repr

namespace Path

/-- The text between slashes, with the component that it is. -/
abbrev Segment := List Char × Option Component

/-- The segments of a path.  The empty one before a slash at the start is the
    root. -/
def segments (p : Path) : List Segment :=
  match Text.pieces (· == '/') p.text.toList with
  | [] => []
  | [[]] => [([], none)]
  | first :: rest =>
    (first, if first.isEmpty then some .root else Component.ofSegment? true first) ::
      rest.map fun s => (s, Component.ofSegment? false s)

def components (p : Path) : List Component := p.segments.filterMap (·.2)

def isAbsolute (p : Path) : Bool := p.components.head? == some .root

/-- The segments up to the last one that is a component. -/
def significant (segments : List Segment) : List Segment :=
  Text.dropEnding (·.2.isNone) segments

/-- The text of segments; the root alone is a slash. -/
def ofSegments (segments : List Segment) : Path :=
  if segments.map (·.2) = [some .root] then ⟨"/"⟩
  else ⟨Text.joinWith "/" (segments.map fun s => String.ofList s.1)⟩

/-- The path without its last component; the root and the empty path have no
    parent. -/
def parent? (p : Path) : Option Path :=
  let written := significant p.segments
  match written.getLast? with
  | none => none
  | some (_, some .root) => none
  | some _ => some (ofSegments (significant written.dropLast))

def fileName? (p : Path) : Option String :=
  match p.components.getLast? with
  | some (.name name) => some name
  | _ => none

/-- A name cut at its last dot; a name whose only dot comes first is whole. -/
def splitExtension (name : String) : String × Option String :=
  match (Text.pieces (· == '.') name.toList).reverse with
  | extension :: before :: more =>
    if before = [] ∧ more = [] then (name, none)
    else
      (Text.joinWith "." ((before :: more).reverse.map String.ofList),
        some (String.ofList extension))
  | _ => (name, none)

def fileStem? (p : Path) : Option String := p.fileName?.map fun name => (splitExtension name).1

def extension? (p : Path) : Option String := p.fileName?.bind fun name => (splitExtension name).2

/-- The path up to its last component, without what is written behind it. -/
def withoutTail (p : Path) : Path := ofSegments (significant p.segments)

/-- The path of a name inside a directory. -/
def join (directory : Path) (name : String) : Path := ⟨directory.text ++ "/" ++ name⟩

/-- The order of paths, by components. -/
def before (a b : Path) : Bool := Component.listBefore a.components b.components

end Path

end Throughput
