/-
  Throughput/Command/Basic.lean
  =============================
  **Commands.**  `disk` summarizes disk logs, `timeline` disk logs of dated
  runs, `network` the bandwidths of network logs; `status` shows the settings.
  `CommandFailure.message` fixes the wording of what can go wrong.
-/
import Throughput.Failure
import Throughput.Input.RunInput
import Throughput.Reading

namespace Throughput

inductive OutputFormat where
  | text
  | markdown
  | json
  deriving DecidableEq, Repr

/-- What makes a series of a timeline. -/
inductive Grouping where
  /-- The signature of a reading. -/
  | label
  /-- The day of a run; days without a run are shown too. -/
  | date
  /-- The time of a run. -/
  | timestamp
  deriving DecidableEq, Repr

/-- Where a report goes, and the series behind it. -/
structure OutputOptions where
  format : OutputFormat
  report : Option Path
  series : Option Path
  deriving DecidableEq, Repr

/-- What can be asked for. -/
inductive Command where
  | disk (logs : List Path) (delimiter : Option Delimiter) (output : OutputOptions)
  | timeline (manifest : Path) (grouping : Grouping) (runs : List RunInput)
      (delimiter : Option Delimiter) (output : OutputOptions)
  | network (logs : List RunInput) (manifest : Option Path) (perNode : Bool)
      (output : OutputOptions)
  | status
  deriving DecidableEq, Repr

/-- A command with the settings file that it is given. -/
structure Invocation where
  settings : Option Path
  command : Command
  deriving DecidableEq, Repr

inductive CommandFailure where
  | settings (fault : SettingsFault)
  | notOpened (path : Path) (error : IoError)
  | manifest (path : Path) (failure : Failure)
  | logWithoutRun (log : RunInput)
  | nodeWithoutRun (node : NodeLogs)
  /-- A log cannot be read, a run has no time, or there is no summary. -/
  | input (failure : Failure)
  | log (path : Path) (failure : Failure)
  | node (directory : Path) (failure : Failure)
  | seriesNotWritten (path : Path) (error : IoError)
  | noDirectory (error : IoError)
  | notCreated (path : Path) (error : IoError)
  | notEmitted (error : IoError)
  /-- A setting is beyond the numbers of a settings file. -/
  | settingTooLarge
  | withheld (unrecognized : Nat)
  deriving DecidableEq

/-- A failure with its cause, which an I/O failure names once more. -/
def Failure.withCause (f : Failure) : String :=
  match f with
  | io error => f.message ++ ": " ++ error.message
  | _ => f.message

namespace CommandFailure

def message : CommandFailure → String
  | settings .unreadable => "failed to load configuration"
  | settings fault => "failed to load configuration: " ++ (Failure.settings fault).message
  | notOpened path error => "failed to open " ++ path.text ++ ": " ++ error.message
  | manifest path failure =>
    "failed to read manifest " ++ path.text ++ ": " ++ failure.withCause
  | logWithoutRun source => source.noRunMessage
  | nodeWithoutRun source => source.noRunMessage
  | input failure => failure.withCause
  | log path failure => "in " ++ path.text ++ ": " ++ failure.withCause
  | node directory failure => "in node " ++ directory.text ++ ": " ++ failure.withCause
  | seriesNotWritten path error =>
    "failed to write series to " ++ path.text ++ ": " ++ error.message
  | noDirectory error => error.message
  | notCreated path error => "failed to create " ++ path.text ++ ": " ++ error.message
  | notEmitted error => "failed to emit report: " ++ error.message
  | settingTooLarge => "out-of-range value for u64 type"
  | withheld unrecognized =>
    natText unrecognized ++ " reading(s) could not be recognized; statistics withheld"

end CommandFailure

end Throughput
