/-
  Throughput/Storage/Files.lean
  =============================
  **Files to be read.**  `Files` says of every path what opening and reading it
  gives.  A directory can be opened; it is reading it that fails.  A device can
  be read, but it is no file.
-/
import Throughput.Failure
import Throughput.Input.Path

namespace Throughput

/-- What can be read, by path. -/
structure Files where
  opened : Path → Except IoError Source
  isFile : Path → Bool

/-- The bytes of a file; nothing where no file stands. -/
def Files.contents? (files : Files) (path : Path) : Option (List UInt8) :=
  match files.isFile path, files.opened path with
  | true, .ok ⟨bytes, none⟩ => some bytes
  | _, _ => none

end Throughput
