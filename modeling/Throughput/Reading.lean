/-
  Throughput/Reading.lean
  =======================
  **Readings of a disk benchmark.**  A log mixes readings with chatter.  A line
  is a candidate when it starts with `r` or `w`; its first field names the
  operation and its last one is the value measured.  A candidate that does not
  fit is still a reading, an unrecognized one, and keeps its fields.
-/
import Throughput.Number.Decimal
import Throughput.Text.Blank

namespace Throughput

inductive Delimiter where
  | comma
  | whitespace
  deriving DecidableEq, Repr

inductive Operation where
  | read
  | write
  deriving DecidableEq, Repr

/-- Whether a candidate line was understood. -/
inductive Verdict where
  | measured (operation : Operation)
  | unrecognized (fields : List String)
  deriving DecidableEq, Repr

/-- One candidate line of a log.  The signature is the line without its last
    field; readings of one experiment share it. -/
structure Reading where
  verdict : Verdict
  value : Binary64
  signature : String
  deriving DecidableEq

namespace Delimiter

def fields : Delimiter → List Char → List (List Char)
  | comma, line => Text.pieces (· == ',') line
  | whitespace, line => Text.words line

/-- What stands between fields when they are joined again. -/
def separator : Delimiter → String
  | comma => ","
  | whitespace => " "

def join (d : Delimiter) (fields : List (List Char)) : String :=
  Text.joinWith d.separator (fields.map String.ofList)

end Delimiter

namespace Reading

def isMarker (c : Char) : Bool := c == 'r' || c == 'w'

def isLineEnd (c : Char) : Bool := c == '\n' || c == '\r'

/-- Whether a line of bytes starts with a marker.  Only such lines are decoded. -/
def isCandidate (line : List UInt8) : Bool :=
  match line with
  | [] => false
  | b :: _ => b == 114 || b == 119

def operation? (field : List Char) : Option Operation :=
  if field = ['r'] then some .read
  else if field = ['w'] then some .write
  else none

/-- The reading on a candidate line without its line end. -/
def ofLine (delimiter : Delimiter) (line : List Char) : Reading :=
  let fields := delimiter.fields line
  let value? := Binary64.ofText? (Text.trim (fields.getLast?.getD []))
  let verdict :=
    match operation? (Text.trim (fields.head?.getD [])), value? with
    | some operation, some _ => .measured operation
    | _, _ => .unrecognized (fields.map String.ofList)
  ⟨verdict, value?.getD (.nan false), delimiter.join fields.dropLast⟩

/-- The reading on a line, if the line is a candidate. -/
def parse? (delimiter : Delimiter) (text : List Char) : Option Reading :=
  let line := Text.dropEnding isLineEnd text
  match line with
  | [] => none
  | c :: _ => if isMarker c then some (ofLine delimiter line) else none

def isRecognized (r : Reading) : Bool :=
  match r.verdict with
  | .measured _ => true
  | .unrecognized _ => false

end Reading

end Throughput
