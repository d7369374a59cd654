/-
  Throughput/Program.lean
  =======================
  **The program.**  Variables may be preset in a file in the current directory.
  `Program.run` reads a command line and carries it out; an outcome has an exit
  code and, if the program failed, a complaint.  Where a variable or a setting
  asks for what cannot be, the program is abandoned without a complaint.
-/
import Throughput.Command.Run
import Throughput.CommandLine.Help
import Throughput.CommandLine.Parse
import Throughput.Environment.File

namespace Throughput

/-- The file that presets variables. -/
def presetFile : Path := ⟨".env"⟩

/-- The environment with what the preset file adds to it, if it can be added. -/
def Environment.withPresets (env : Environment) (files : Files) : Option Environment :=
  match files.contents? presetFile with
  | some bytes => env.withFile bytes
  | none => some env

namespace Program

inductive Outcome where
  | done
  | failed (failure : CommandFailure)
  | usage (usage : CommandLine.Usage)
  | abandoned
  deriving DecidableEq

namespace Outcome

def ofFailure : CommandFailure → Outcome
  | .settings .outsideArray => abandoned
  | failure => failed failure

def exitCode : Outcome → Nat
  | done => 0
  | failed _ => 1
  | usage u => u.exitCode
  | abandoned => 101

/-- What the program says about its failure. -/
def complaint : Outcome → String
  | done => ""
  | failed failure => "Error: " ++ failure.message
  | usage u => "error: " ++ u.complaint
  | abandoned => ""

end Outcome

/-- What is printed where no command is carried out. -/
def usageText : CommandLine.Usage → String
  | .help => CommandLine.helpText
  | .version => "benchlog " ++ Plan.version ++ "\n"
  | _ => ""

/-- Carries out a command line in an environment to which the presets are added.
    What is printed does not go to a terminal. -/
def run (env : Environment) (now : Stamp) (w : World) (arguments : List String) :
    Outcome × World :=
  match env.withPresets w.tree.read with
  | none => (.abandoned, w)
  | some env =>
    match CommandLine.parse env arguments with
    | .error u => (.usage u, { w with printed := w.printed ++ usageText u })
    | .ok invocation =>
      match invocation.run env (.ofEnvironment env false) now w with
      | (.ok (), after) => (.done, after)
      | (.error failure, after) => (.ofFailure failure, after)

end Program

end Throughput
