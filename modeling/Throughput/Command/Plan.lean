/-
  Throughput/Command/Plan.lean
  ============================
  **Plans.**  A command first takes in all it has to read and makes a plan of
  effects; only then does anything change.  A plan also knows how the command
  ends once all effects are performed, for a report can be delivered and the
  command fail nonetheless.
-/
import Throughput.Command.Basic
import Throughput.Delivery.Effect

namespace Throughput

/-- An effect, and what its failure means for the command. -/
structure Step where
  effect : Effect
  failure : IoError → CommandFailure

/-- What a command does, and how it ends. -/
structure Plan where
  steps : List Step
  verdict : Except CommandFailure Unit

namespace Step

/-- Performs steps in order until one fails. -/
def performAll : World → List Step → Except CommandFailure Unit × World
  | w, [] => (.ok (), w)
  | w, step :: rest =>
    match step.effect.perform w with
    | (.ok (), after) => performAll after rest
    | (.error e, after) => (.error (step.failure e), after)

/-- Steps whose failures mean the same. -/
def all (failure : IoError → CommandFailure) (effects : List Effect) : List Step :=
  effects.map fun effect => ⟨effect, failure⟩

end Step

/-- Performs the steps of a plan; if all succeed, its verdict holds. -/
def Plan.perform (p : Plan) (w : World) : Except CommandFailure Unit × World :=
  match Step.performAll w p.steps with
  | (.ok (), after) => (p.verdict, after)
  | (.error e, after) => (.error e, after)

end Throughput
