/-
  Throughput/Command/Emphasis.lean
  ================================
  **Emphasis.**  Headings are bold on a terminal.  Variables of the environment
  can ask for the one or the other; the variable that forces it counts first.
-/
import Throughput.Environment.Basic

namespace Throughput

inductive Emphasis where
  | plain
  | bold
  deriving DecidableEq, Repr

namespace Emphasis

def heading (text : String) : Emphasis → String
  | plain => text
  | bold => "\x1b[1m" ++ text ++ "\x1b[0m"

/-- Whether a variable is set to something other than zero; nothing if it is not set. -/
def switch? (env : Environment) (name : String) : Option Bool :=
  (env.lookup name).map (· != "0")

/-- What the environment asks for, given whether the output is a terminal. -/
def ofEnvironment (env : Environment) (terminal : Bool) : Emphasis :=
  if switch? env "CLICOLOR_FORCE" = some true then bold
  else if (env.lookup "NO_COLOR").isSome then plain
  else if terminal && (switch? env "CLICOLOR").getD true then bold
  else plain

end Emphasis

end Throughput
