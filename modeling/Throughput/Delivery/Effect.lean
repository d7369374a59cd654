/-
  Throughput/Delivery/Effect.lean
  ===============================
  **Effects.**  What a command changes outside itself is a list of effects: they
  are performed in order on a world, which is a tree of files and what was
  printed so far, until one fails.
-/
import Throughput.Storage.FileTree
import Throughput.Text.Utf8

namespace Throughput

/-- One change to the files, or to what is printed. -/
inductive Effect where
  /-- Makes the directory that a file is to stand in. -/
  | makeParent (path : Path)
  /-- Makes a file with a text, or gives the text to the one that is there. -/
  | write (path : Path) (text : String)
  /-- Writes a text over the beginning of a file that was opened when empty. -/
  | overwrite (path : Path) (text : String)
  | print (text : String)
  /-- Only fails. -/
  | fail (error : IoError)
  deriving DecidableEq

/-- The files below the current directory, and what was printed. -/
structure World where
  tree : FileTree
  printed : String
  deriving DecidableEq

def textBytes (text : String) : List UInt8 := Text.encodeUtf8 text.toList

namespace World

/-- Makes the tree what a change makes of it, unless the change fails. -/
def change (w : World) : Except IoError FileTree → Except IoError Unit × World
  | .ok tree => (.ok (), { w with tree })
  | .error e => (.error e, w)

/-- Prints a text whose path stands for the output. -/
def echo (w : World) (path : Path) (text : String) : World :=
  if w.tree.isOutput path then { w with printed := w.printed ++ text } else w

/-- Makes the directory around a file, and those around that one. -/
def makeParent (w : World) (path : Path) : Except IoError Unit × World :=
  match path.parent? with
  | none => (.ok (), w)
  | some parent =>
    let (result, tree) := w.tree.makeDirectories parent
    (result, { w with tree })

end World

/-- The outcome of an effect and the world behind it. -/
def Effect.perform (w : World) : Effect → Except IoError Unit × World
  | makeParent path => w.makeParent path
  | write path text => (w.echo path text).change (w.tree.write path (textBytes text))
  | overwrite path text => (w.echo path text).change (w.tree.overwrite path (textBytes text))
  | print text => (.ok (), { w with printed := w.printed ++ text })
  | fail error => (.error error, w)

/-- Performs effects in order until one fails. -/
def Effect.performAll : World → List Effect → Except IoError Unit × World
  | w, [] => (.ok (), w)
  | w, effect :: rest =>
    match effect.perform w with
    | (.ok (), after) => performAll after rest
    | (.error e, after) => (.error e, after)

@[simp] theorem Effect.performAll_nil (w : World) : performAll w [] = (.ok (), w) := rfl

/-- The second list is performed only if the first one succeeds. -/
theorem Effect.performAll_append (w : World) (first second : List Effect) :
    performAll w (first ++ second) =
      match performAll w first with
      | (.ok (), after) => performAll after second
      | (.error e, after) => (.error e, after) := by
  induction first generalizing w with
  | nil => rfl
  | cons effect rest ih =>
    simp only [List.cons_append, performAll]
    split
    · exact ih _
    · rfl

end Throughput
