/-
  Throughput/Input/RunInput.lean
  ==============================
  **Log files as they are named on a command line.**  A log may be tagged with
  the run it belongs to, `RUN=FILE`.  For totals per node, logs are grouped by
  run and by the directory that holds them; a node's log of itself is left out.
-/
import Throughput.Input.Path

namespace Throughput

/-- Why an argument names no log. -/
inductive InputFault where
  | emptyRun (argument : String)
  | noFile (argument : String)
  deriving DecidableEq, Repr

def InputFault.message : InputFault → String
  | emptyRun argument => "'" ++ argument ++ "' has an empty run identifier"
  | noFile argument => "'" ++ argument ++ "' has no file path"

structure RunInput where
  run : Option String
  path : Path
  deriving DecidableEq, Repr

/-- The logs that one node wrote, named by the directory that holds them. -/
structure NodeLogs where
  run : Option String
  node : Path
  files : List Path
  deriving DecidableEq, Repr

namespace RunInput

/-- Reads an argument; the text before the first `=` is the run. -/
def ofText (argument : String) : Except InputFault RunInput :=
  let cs := argument.toList
  let before := cs.takeWhile (· != '=')
  match cs.dropWhile (· != '=') with
  | [] =>
    if cs.isEmpty then .error (.noFile argument) else .ok ⟨none, ⟨argument⟩⟩
  | _ :: file =>
    if before.isEmpty then .error (.emptyRun argument)
    else if file.isEmpty then .error (.noFile argument)
    else .ok ⟨some (String.ofList before), ⟨String.ofList file⟩⟩

/-- What is said when the run of a log is asked for and it has none. -/
def noRunMessage (i : RunInput) : String :=
  i.path.text ++ " has no run identifier; pass it as RUN=" ++ i.path.text

end RunInput

/-- A text without the given beginning, if it has it. -/
def withoutStart? (start text : String) : Option String :=
  if start.toList.isPrefixOf text.toList then
    some (String.ofList (text.toList.drop start.length))
  else none

/-- A file `bandwidth_<n>` inside `result_<n>` is a node measuring itself. -/
def Path.isLoopback (p : Path) : Bool :=
  let peer := p.fileStem?.bind (withoutStart? "bandwidth_")
  let node := (p.parent?.bind Path.fileName?).bind (withoutStart? "result_")
  match node, peer with
  | some node, some peer => node == peer
  | _, _ => false

namespace NodeLogs

def noRunMessage (n : NodeLogs) : String :=
  "node " ++ n.node.text ++ " has no run identifier; pass its logs as RUN=FILE"

/-- The order of runs; logs without a run come first. -/
def runBefore : Option String → Option String → Bool
  | none, some _ => true
  | some a, some b => decide (a < b)
  | _, none => false

/-- The order of nodes: by run, then by directory. -/
def before (a b : NodeLogs) : Bool :=
  runBefore a.run b.run || (decide (a.run = b.run) && a.node.before b.node)

/-- The node of a single log. -/
def ofInput (i : RunInput) : NodeLogs := ⟨i.run, i.path.parent?.getD ⟨""⟩, [i.path]⟩

/-- Puts a node in its place, or its files to those of the same node. -/
def insert (n : NodeLogs) : List NodeLogs → List NodeLogs
  | [] => [n]
  | m :: rest =>
    if m.before n then m :: insert n rest
    else if n.before m then n :: m :: rest
    else { m with files := m.files ++ n.files } :: rest

/-- The logs of each node, in the order of the nodes. -/
def group (inputs : List RunInput) : List NodeLogs :=
  (inputs.filter fun i => !i.path.isLoopback).foldl (fun nodes i => insert (ofInput i) nodes) []

end NodeLogs

end Throughput
