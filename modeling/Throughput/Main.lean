/-
  Throughput/Main.lean
  ====================
  **The command line program.**  What a command can read is read first; the plan
  made of it is then performed step by step.
-/
import Std.Time.DateTime.Timestamp
import Throughput.Program

namespace Throughput.Host

/-! ### Reading -/

def cause : IO.Error → IoError
  | .noFileOrDirectory .. => .notFound
  | .alreadyExists .. => .fileExists
  | .inappropriateType _ code _ => if code = 20 then .notADirectory else .isDirectory
  | .invalidArgument _ 36 _ => .nameTooLong
  | .resourceExhausted _ 28 _ => .noSpace
  | other => .other (toString other)

/-- The outcome of an operation that may fail. -/
def attempt {α : Type} (act : IO α) : IO (Except IoError α) := do
  try
    return .ok (← act)
  catch e =>
    return .error (cause e)

/-- What opening and reading a path gives. -/
def readSource (path : Path) : IO (Except IoError Source) := do
  match ← attempt (IO.FS.Handle.mk path.text .read) with
  | .error e => return .error e
  | .ok handle =>
    match ← attempt handle.readBinToEnd with
    | .ok bytes => return .ok ⟨bytes.toList, none⟩
    | .error e => return .ok ⟨[], some e⟩

def isFile (path : Path) : IO Bool := do
  match ← attempt ((← IO.currentDir) / path.text).metadata with
  | .ok data => return data.type == .file
  | .error _ => return false

/-- What is found at the given paths. -/
def readFiles (paths : List Path) : IO Files := do
  let found ← paths.mapM fun path => return (path, ← readSource path)
  let proper ← paths.filterM isFile
  return ⟨fun path => (found.lookup path).getD (.error .notFound), fun path => proper.contains path⟩

def environment : IO Environment := do
  match ← readSource ⟨"/proc/self/environ"⟩ with
  | .ok source => return .ofBlock source.bytes
  | .error _ => return []

/-- The time, to the nanosecond. -/
def now : IO (Option Stamp) := do
  let time ← Std.Time.Timestamp.now
  return Stamp.ofEpoch? time.toNanosecondsSinceUnixEpoch.val

/-! ### Performing -/

def perform : Effect → IO (Except IoError Unit)
  | .makeParent path =>
    match path.parent? with
    | none => return .ok ()
    | some parent =>
      if parent.text.isEmpty then return .ok ()
      else attempt (IO.FS.createDirAll parent.text)
  | .write path text => attempt (IO.FS.writeFile path.text text)
  | .overwrite path text => attempt do
    let handle ← IO.FS.Handle.mk path.text .readWrite
    handle.putStr text
    handle.flush
  | .print text => attempt (IO.print text)
  | .fail error => return .error error

/-- Performs steps in order until one fails. -/
def performAll : List Step → IO (Except CommandFailure Unit)
  | [] => return .ok ()
  | step :: rest => do
    match ← perform step.effect with
    | .ok () => performAll rest
    | .error e => return .error (step.failure e)

def carryOut (env : Environment) (i : Invocation) : IO Program.Outcome := do
  let files ← readFiles i.inputs
  let some time ← now | throw (IO.userError "the clock is out of range")
  let emphasis := Emphasis.ofEnvironment env (← (← IO.getStdout).isTty)
  match i.plan files env emphasis time with
  | .error failure => return .ofFailure failure
  | .ok plan =>
    match ← performAll plan.steps with
    | .error failure => return .ofFailure failure
    | .ok () =>
      match plan.verdict with
      | .error failure => return .ofFailure failure
      | .ok () => return .done

end Throughput.Host

open Throughput

def main (arguments : List String) : IO UInt32 := do
  let presets ← Host.readFiles [presetFile]
  let outcome ← match (← Host.environment).withPresets presets with
    | none => pure .abandoned
    | some env =>
      match CommandLine.parse env arguments with
      | .error usage => do
        IO.print (Program.usageText usage)
        pure (Program.Outcome.usage usage)
      | .ok invocation => Host.carryOut env invocation
  unless outcome.complaint.isEmpty do IO.eprintln outcome.complaint
  return outcome.exitCode.toUInt32
