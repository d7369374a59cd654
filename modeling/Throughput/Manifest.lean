/-
  Throughput/Manifest.lean
  ========================
  **Run manifests.**  A manifest lists when each run was taken, one entry per
  line: a marker, then `run -- date -- time` on a 12-hour clock.  Other lines
  are comments.  One known entry of another shape is understood as well.  A
  later entry for a run replaces an earlier one.
-/
import Throughput.Calendar.Stamp
import Throughput.Failure
import Throughput.Number.Decimal
import Throughput.Number.Word
import Throughput.Text.Lines
import Throughput.Text.Utf8

namespace Throughput

/-- How manifests are read: the character that starts an entry, the number of
    lines at the top to pass over, and the year of dates without one. -/
structure ManifestRule where
  marker : Char
  headerLines : Nat
  defaultYear : Int
  deriving DecidableEq

/-- The rule used when none is set. -/
def ManifestRule.standard : ManifestRule := ⟨'*', 0, 2015⟩

structure Run where
  id : String
  start : Stamp
  deriving DecidableEq

namespace Run

/-! ### Entries -/

/-- A number that fits 32 bits, with an optional plus sign. -/
def word? (cs : List Char) : Option Nat :=
  (Decimal.unsignedWhole? cs).filter (Word.fits 32)

def dateComponent (date component : List Char) : Except ManifestFault Nat :=
  match word? (Text.trim component) with
  | some n => .ok n
  | none => .error (.dateComponent (String.ofList component) (String.ofList date))

/-- The year that a 32-bit number stands for; numbers from `2^31` up are
    negative years. -/
def signedYear (n : Nat) : Int := Word.wrapSigned 32 n

/-- The fields of a date written `month/day` or `year/month/day`. -/
def dateFields (defaultYear : Int) (text : List Char) : Except ManifestFault (Int × Nat × Nat) :=
  match Text.pieces (· == '/') text with
  | [month, day] => do
    let month ← dateComponent text month
    let day ← dateComponent text day
    return (defaultYear, month, day)
  | [year, month, day] => do
    let year ← dateComponent text year
    let month ← dateComponent text month
    let day ← dateComponent text day
    return (signedYear year, month, day)
  | _ => .error (.dateShape (String.ofList text))

def date (defaultYear : Int) (text : List Char) : Except ManifestFault Date := do
  let (year, month, day) ← dateFields defaultYear text
  match Date.ofFields? year month day with
  | some date => return date
  | none => throw (.noSuchDate (String.ofList text))

/-- The text before `am` or `pm`, and the hours that the half of the day adds. -/
def halfOfDay? (text : List Char) : Option (List Char × Nat) :=
  match (text.map lowerAscii).reverse with
  | 'm' :: 'a' :: digits => some (digits.reverse, 0)
  | 'm' :: 'p' :: digits => some (digits.reverse, 12)
  | _ => none

/-- An hour of the 12-hour clock as one of the 24 hours of the day. -/
def hour (text : List Char) : Except ManifestFault Nat :=
  match halfOfDay? text with
  | none => .error (.noHalfOfDay (String.ofList text))
  | some (digits, offset) =>
    match word? (Text.trim digits) with
    | none => .error (.hourNotANumber (String.ofList text))
    | some hour =>
      if 1 ≤ hour ∧ hour ≤ 12 then .ok (hour % 12 + offset)
      else .error (.hourOutOfRange (String.ofList text))

/-- What stands between the parts of an entry. -/
def separator : List Char := [' ', '-', '-', ' ']

/-- The run on an entry line, given what follows the marker. -/
def ofEntry (defaultYear : Int) (body : List Char) : Except ManifestFault Run :=
  match (Text.piecesAt separator (Text.trim body)).map Text.trim with
  | [id, dateText, timeText] => do
    if id.isEmpty then throw .emptyRun
    let date ← date defaultYear dateText
    let hour ← hour timeText
    match Stamp.at? date hour 0 0 0 with
    | some start => return ⟨String.ofList id, start⟩
    | none => throw (.hourOutOfRange (String.ofList timeText))
  | parts => .error (.segments parts.length)

/-- The entry of run 27, which has a shape of its own. -/
def knownEntry : List Char :=
  "* 27, Mon Aug 31 11:45:24 PDT 2015, ap-southeast-1a, i2.xlarge".toList

/-- The run of the known entry. -/
def known : Run where
  id := "27"
  start := Date.atClock ⟨2015, 8, 31, by decide⟩ 11 45 24

/-- The run on a line of a manifest; nothing on a line that is no entry. -/
def ofLine? (rule : ManifestRule) (line : List Char) : Option (Except ManifestFault Run) :=
  if Text.trim line = knownEntry then some (.ok known)
  else match line with
    | [] => none
    | c :: body => if c = rule.marker then some (ofEntry rule.defaultYear body) else none

end Run

/-- The runs of a manifest, each listed once. -/
structure Manifest where
  runs : List Run
  deriving DecidableEq

namespace Manifest

def empty : Manifest := ⟨[]⟩

def find? (m : Manifest) (id : String) : Option Run := m.runs.find? (·.id = id)

/-- Adds a run in place of an earlier one with its identifier. -/
def insert (m : Manifest) (run : Run) : Manifest :=
  ⟨m.runs.filter (·.id ≠ run.id) ++ [run]⟩

/-- The number of runs listed. -/
def size (m : Manifest) : Nat := m.runs.length

/-- A run by its identifier; there is no default. -/
def run (m : Manifest) (id : String) : Except Failure Run :=
  match m.find? id with
  | some run => .ok run
  | none => .error (.missingTimestamp id)

/-- Takes up one numbered line. -/
def addLine (rule : ManifestRule) (m : Manifest) (line : List UInt8) (number : Nat) :
    Except Failure Manifest :=
  match Run.ofLine? rule (Text.decodeUtf8 (Text.dropReturn line)) with
  | none => .ok m
  | some (.ok run) => .ok (m.insert run)
  | some (.error fault) => .error (.malformedManifestLine number fault)

/-- Takes up lines from a number on, until one is malformed. -/
def addLines (rule : ManifestRule) : Manifest → List (List UInt8) → Nat → Except Failure Manifest
  | m, [], _ => .ok m
  | m, line :: rest, number =>
    match addLine rule m line number with
    | .ok m => addLines rule m rest (number + 1)
    | .error failure => .error failure

/-- Reads a manifest.  Lines are numbered from one, header included; a failure
    to read counts once all lines before it are taken up. -/
def ofLog (rule : ManifestRule) (log : Source) : Except Failure Manifest :=
  let read (lines : List (List UInt8)) :=
    addLines rule empty (lines.drop rule.headerLines) (rule.headerLines + 1)
  match log.failure with
  | none => read (Text.byteLines log.bytes)
  | some error =>
    match read (Text.endedLines log.bytes) with
    | .ok _ => .error (.io error)
    | .error failure => .error failure

end Manifest

end Throughput
