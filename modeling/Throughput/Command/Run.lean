/-
  Throughput/Command/Run.lean
  ===========================
  **Running commands.**  `Invocation.plan` loads the settings, takes in the
  manifest and the logs and plans the delivery of the report; whatever fails
  before that fails without any effect.  `Invocation.run` performs the plan.
-/
import Throughput.Chart
import Throughput.Command.Emphasis
import Throughput.Command.Intake
import Throughput.Command.Plan
import Throughput.Delivery.Sink
import Throughput.Settings.Load
import Throughput.Settings.Text

namespace Throughput

namespace Plan

/-! ### Delivery -/

/-- Where reports in JSON go if nothing else is said. -/
def reportDirectory : Path := ⟨"benchlog/output"⟩

def seriesSteps (path : Path) (text : String) : List Step :=
  Step.all (.seriesNotWritten path) (Effect.writeBelow path text)

/-- Steps that make an empty file for a report. -/
def createSteps (path : Path) : List Step :=
  [⟨.makeParent path, .noDirectory⟩, ⟨.write path "", .notCreated path⟩]

/-- The sink of a report, and the steps that open it. -/
def sink (title : String) (output : OutputOptions) : Sink × List Step :=
  match output.format, output.report with
  | .text, none => (.text .output, [])
  | .text, some path => (.text (.file path), createSteps path)
  | .markdown, none => (.markdown .output, [])
  | .markdown, some path => (.markdown (.file path), createSteps path)
  | .json, report => (.json (report.getD (reportDirectory.join (title ++ ".json"))), [])

/-- The plan to deliver what was taken in.  The series are left out if statistics
    are withheld, and the command then fails once the report is delivered. -/
def deliver {κ : Type} [SeriesKey κ] (s : Settings) (now : Stamp) (title : String)
    (c : Collection κ) (output : OutputOptions) : Except CommandFailure Plan := do
  let report ← (c.summarize s.percentiles).mapError .input
  let series := match output.series with
    | some path =>
      if report.withheld then []
      else seriesSteps path (ChartSeries.fileText (c.groups.map ChartSeries.ofGroup))
    | none => []
  let (sink, opening) := sink title output
  let emission := Step.all .notEmitted (sink.effects (Analysis.ofReport title now report))
  return {
    steps := series ++ opening ++ emission
    verdict :=
      if report.withheld then .error (.withheld report.unrecognized.length) else .ok () }

/-! ### The commands -/

def disk (files : Files) (s : Settings) (now : Stamp) (logs : List Path)
    (output : OutputOptions) : Except CommandFailure Plan := do
  let logs := logs.map fun path => Intake.DiskLog.mk path none fun _ => ()
  let session ← logs.foldlM (Intake.diskLog files) (Intake.start s)
  deliver s now "disk" session.finish output

/-- Takes in dated disk logs and delivers what `finish` makes of them. -/
def timelineBy {κ : Type} [SeriesKey κ] (files : Files) (s : Settings) (now : Stamp)
    (runs : List (Run × Path)) (key : Run → Reading → κ) (finish : Session κ → Collection κ)
    (output : OutputOptions) : Except CommandFailure Plan := do
  let logs := runs.map fun (run, path) => Intake.DiskLog.mk path (some run.start) (key run)
  let session ← logs.foldlM (Intake.diskLog files) (Intake.start s)
  deliver s now "timeline" (finish session) output

/-- Every run is looked up before the first log is opened. -/
def timeline (files : Files) (s : Settings) (now : Stamp) (manifest : Path)
    (grouping : Grouping) (runs : List RunInput) (output : OutputOptions) :
    Except CommandFailure Plan := do
  let manifest ← Intake.readManifest files s manifest
  let runs ← runs.mapM fun log => do return (← Intake.logRun manifest log, log.path)
  match grouping with
  | .label => timelineBy files s now runs (fun _ r => r.signature) Session.finish output
  | .date =>
    timelineBy files s now runs (fun run _ => run.start.date) Session.finishContiguous output
  | .timestamp => timelineBy files s now runs (fun run _ => run.start) Session.finish output

def network (files : Files) (s : Settings) (now : Stamp) (logs : List RunInput)
    (manifest : Option Path) (perNode : Bool) (output : OutputOptions) :
    Except CommandFailure Plan := do
  match manifest with
  | some path =>
    let manifest ← Intake.readManifest files s path
    let session ← Intake.network files perNode (Intake.start s)
      (fun log => return (← Intake.logRun manifest log).start.date)
      (fun node => return (← Intake.nodeRun manifest node).start.date) logs
    deliver s now "network" session.finishContiguous output
  | none =>
    let session ← Intake.network files perNode (Intake.start s) (fun _ => pure ())
      (fun _ => pure ()) logs
    deliver s now "network" session.finish output

def version : String := "0.1.0"

/-- What `status` says of the settings file. -/
def fileLine : Option Path → String
  | some path => "Config file: " ++ path.text
  | none => "Config file: (none, defaults and environment only)"

def status (s : Settings) (file : Option Path) (emphasis : Emphasis) : Plan :=
  let heading := emphasis.heading "Benchlog" ++ "\nVersion: " ++ version ++ "\n" ++
    fileLine file ++ "\n\n" ++ emphasis.heading "Effective configuration:" ++ "\n"
  match s.tomlText? with
  | some text => ⟨Step.all .notEmitted [.print heading, .print text], .ok ()⟩
  | none => ⟨Step.all .notEmitted [.print heading], .error .settingTooLarge⟩

end Plan

def Settings.withDelimiter (s : Settings) (delimiter : Option Delimiter) : Settings :=
  { s with delimiter := delimiter.getD s.delimiter }

namespace Invocation

/-- What an invocation does, given what it can read. -/
def plan (files : Files) (environment : Environment) (emphasis : Emphasis) (now : Stamp)
    (i : Invocation) : Except CommandFailure Plan := do
  let s ← (Settings.load files environment i.settings).mapError .settings
  match i.command with
  | .disk logs delimiter output =>
    Plan.disk files (s.withDelimiter delimiter) now logs output
  | .timeline manifest grouping runs delimiter output =>
    Plan.timeline files (s.withDelimiter delimiter) now manifest grouping runs output
  | .network logs manifest perNode output =>
    Plan.network files s now logs manifest perNode output
  | .status => return Plan.status s i.settings emphasis

/-- The paths that a plan can depend on. -/
def inputs (i : Invocation) : List Path :=
  let settings := match i.settings with
    | some path => [path, Settings.extended path]
    | none => []
  settings ++ match i.command with
    | .disk logs _ _ => logs
    | .timeline manifest _ runs _ _ => manifest :: runs.map (·.path)
    | .network logs manifest _ _ => manifest.toList ++ logs.map (·.path)
    | .status => []

/-- Runs an invocation in a world. -/
def run (environment : Environment) (emphasis : Emphasis) (now : Stamp) (w : World)
    (i : Invocation) : Except CommandFailure Unit × World :=
  match i.plan w.tree.read environment emphasis now with
  | .ok plan => plan.perform w
  | .error failure => (.error failure, w)

end Invocation

end Throughput
