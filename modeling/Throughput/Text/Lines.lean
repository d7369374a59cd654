/-
  Throughput/Text/Lines.lean
  ==========================
  **Lines of bytes.**  A log is read as the bytes that were delivered and, if
  reading broke off, the failure that ended it.  Lines end at a newline; one
  carriage return before it belongs to the line end.  An unfinished last line
  counts when the log simply ends, and is lost when reading failed in it.
-/
import Throughput.Text.Blank

namespace Throughput.Text

def newline : UInt8 := 10

def carriageReturn : UInt8 := 13

/-- A line without the carriage return of its line end. -/
def dropReturn (line : List UInt8) : List UInt8 :=
  if line.getLast? = some carriageReturn then line.dropLast else line

/-- The bytes between newlines; nothing follows a newline at the very end. -/
def byteLines (bytes : List UInt8) : List (List UInt8) :=
  let parts := pieces (· == newline) bytes
  if parts.getLast? = some [] then parts.dropLast else parts

/-- The bytes of the lines that a newline ends. -/
def endedLines (bytes : List UInt8) : List (List UInt8) :=
  (pieces (· == newline) bytes).dropLast

/-- The bytes that are white space in ASCII; a vertical tab is not among them. -/
def isAsciiBlank (b : UInt8) : Bool :=
  b == 9 || b == 10 || b == 12 || b == 13 || b == 32

end Throughput.Text
