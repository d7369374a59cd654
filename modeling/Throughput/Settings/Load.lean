/-
  Throughput/Settings/Load.lean
  =============================
  **Where settings come from.**  `Settings.load` reads a settings file, if one
  is named, lays the environment over it and checks the result.  A file that
  is named has to be there, as it is named or with the extension added.
-/
import Throughput.Settings.Decoding
import Throughput.Settings.Layers
import Throughput.Storage.Files
import Throughput.Text.Utf8
import Throughput.Toml.Reader

namespace Throughput.Settings

def extension : String := "toml"

/-- A path with the extension added to its last name. -/
def extended (path : Path) : Path := ⟨path.withoutTail.text ++ "." ++ extension⟩

/-- The bytes of the settings file that a path names. -/
def fileBytes (files : Files) (path : Path) : Except SettingsFault (List UInt8) :=
  match files.contents? path with
  | some bytes => if path.extension? = some extension then .ok bytes else .error .unreadable
  | none =>
    match path.fileName?.bind fun _ => files.contents? (extended path) with
    | some bytes => .ok bytes
    | none => .error (.fileNotFound path.text)

/-- The entries of the settings file that a path names. -/
def fileEntries (files : Files) (path : Path) : Except SettingsFault Toml.Entries := do
  let bytes ← fileBytes files path
  match (Text.utf8? bytes).bind Toml.ofText? with
  | some entries => return entries
  | none => throw .unreadable

/-- The settings in force: the file if there is one, under the environment. -/
def load (files : Files) (environment : Environment) (path : Option Path) :
    Except SettingsFault Settings := do
  let file ← match path with
    | none => pure []
    | some path => fileEntries files path
  match ofEntries? (← Toml.layers file environment) with
  | some settings => settings.check
  | none => throw .unreadable

end Throughput.Settings
