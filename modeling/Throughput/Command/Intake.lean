/-
  Throughput/Command/Intake.lean
  ==============================
  **Taking in what a command names.**  Logs are opened and taken in one after
  another, the logs of a node together.  Where a manifest dates the runs, every
  log or node has to belong to a run that the manifest lists.
-/
import Throughput.Command.Basic
import Throughput.Session
import Throughput.Settings.Basic
import Throughput.Storage.Files

namespace Throughput.Intake

/-! ### Logs -/

def openLog (files : Files) (path : Path) : Except CommandFailure Source :=
  (files.opened path).mapError (.notOpened path)

/-- An empty session under settings. -/
def start {κ : Type} [SeriesKey κ] (s : Settings) : Session κ :=
  .start s.delimiter s.bandwidth

/-- A disk log with the time of its run and the keys of its readings. -/
structure DiskLog (κ : Type) where
  path : Path
  time : Option Stamp
  key : Reading → κ

variable {κ : Type} [SeriesKey κ]

def diskLog (files : Files) (s : Session κ) (log : DiskLog κ) :
    Except CommandFailure (Session κ) := do
  let source ← openLog files log.path
  match s.diskLog log.time log.key source with
  | (.ok _, after) => return after
  | (.error failure, _) => throw (.input failure)

def networkLog (files : Files) (s : Session κ) (key : κ) (path : Path) :
    Except CommandFailure (Session κ) := do
  let source ← openLog files path
  match s.networkLog key source with
  | (.ok _, after) => return after
  | (.error failure, _) => throw (.log path failure)

/-- Takes in the logs of a node; all of them are opened before one is read. -/
def nodeLogs (files : Files) (s : Session κ) (key : κ) (node : NodeLogs) :
    Except CommandFailure (Session κ) := do
  let sources ← node.files.mapM (openLog files)
  match s.nodeLogs key sources with
  | (.ok _, after) => return after
  | (.error failure, _) => throw (.node node.node failure)

/-- Takes in network logs, or the nodes that they come from.  The key of a log or
    node depends on its run and is looked up before it is opened. -/
def network (files : Files) (perNode : Bool) (s : Session κ)
    (logKey : RunInput → Except CommandFailure κ) (nodeKey : NodeLogs → Except CommandFailure κ)
    (logs : List RunInput) : Except CommandFailure (Session κ) :=
  if perNode then
    (NodeLogs.group logs).foldlM (fun s node => do nodeLogs files s (← nodeKey node) node) s
  else
    logs.foldlM (fun s log => do networkLog files s (← logKey log) log.path) s

/-! ### Runs -/

def readManifest (files : Files) (s : Settings) (path : Path) :
    Except CommandFailure Manifest := do
  let source ← openLog files path
  (Manifest.ofLog s.manifest source).mapError (.manifest path)

/-- The run with an identifier that has to be there. -/
def runOf (m : Manifest) (missing : CommandFailure) (id : Option String) :
    Except CommandFailure Run :=
  match id with
  | none => .error missing
  | some id => (m.run id).mapError .input

def logRun (m : Manifest) (log : RunInput) : Except CommandFailure Run :=
  runOf m (.logWithoutRun log) log.run

def nodeRun (m : Manifest) (node : NodeLogs) : Except CommandFailure Run :=
  runOf m (.nodeWithoutRun node) node.run

end Throughput.Intake
