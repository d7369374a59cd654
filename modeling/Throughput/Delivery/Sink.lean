/-
  Throughput/Delivery/Sink.lean
  =============================
  **Where analyses go.**  A sink delivers an analysis in one format to one
  destination.  `emitAll` serves sinks in order; the first failure ends it, and
  later sinks are left alone.
-/
import Throughput.Analysis.File
import Throughput.Analysis.Markdown
import Throughput.Analysis.PlainText
import Throughput.Delivery.Effect

namespace Throughput

/-- Where a text goes: it is printed, or written to a file opened before. -/
inductive Destination where
  | output
  | file (path : Path)
  deriving DecidableEq, Repr

/-- A destination for analyses with its format. -/
inductive Sink where
  | text (destination : Destination)
  | markdown (destination : Destination)
  | json (path : Path)
  /-- Never takes an analysis. -/
  | refusing
  deriving DecidableEq, Repr

/-- The effect that sends a text to a destination. -/
def Destination.send (text : String) : Destination → Effect
  | output => .print text
  | file path => .overwrite path text

/-- The effects that write a text to a file in a directory that may be missing. -/
def Effect.writeBelow (path : Path) (text : String) : List Effect :=
  [.makeParent path, .write path text]

namespace Sink

def description : Sink → String
  | text _ => "text"
  | markdown _ => "markdown"
  | json path => "json:" ++ path.text
  | refusing => "failing"

/-- The effects that deliver an analysis. -/
def effects (a : Analysis) : Sink → List Effect
  | text destination => [destination.send a.plainText]
  | markdown destination => [destination.send a.markdown]
  | json path => Effect.writeBelow path a.fileText
  | refusing => [.fail (.other "sink failed")]

def emit (a : Analysis) (w : World) (s : Sink) : Except IoError Unit × World :=
  Effect.performAll w (s.effects a)

/-- Delivers an analysis to all sinks in order, up to the first failure. -/
def emitAll (a : Analysis) (w : World) (sinks : List Sink) : Except IoError Unit × World :=
  Effect.performAll w (sinks.flatMap (effects a))

theorem emitAll_cons (a : Analysis) (w : World) (s : Sink) (rest : List Sink) :
    emitAll a w (s :: rest) =
      match s.emit a w with
      | (.ok (), after) => emitAll a after rest
      | (.error e, after) => (.error e, after) := by
  simp only [emitAll, List.flatMap_cons]
  exact Effect.performAll_append w (s.effects a) (rest.flatMap (effects a))

end Sink

end Throughput
