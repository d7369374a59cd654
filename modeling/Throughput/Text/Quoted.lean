/-
  Throughput/Text/Quoted.lean
  ===========================
  **Quoted text for a reader's eye.**  Text stands in double quotes; quotes and
  backslashes are escaped, common controls have a letter, and what would not
  show, or would merge with its neighbour, appears as its number in braces.
-/
import Throughput.Text.Blank
import Throughput.Text.Printable

namespace Throughput.Text

/-- The digits of a number in lower-case hexadecimal. -/
def hexDigits (n : Nat) : List Char := Nat.toDigits 16 n

/-- How a character is shown inside double quotes. -/
def showChar (c : Char) : List Char :=
  if c = '\x00' then ['\\', '0']
  else if c = '\t' then ['\\', 't']
  else if c = '\r' then ['\\', 'r']
  else if c = '\n' then ['\\', 'n']
  else if c = '\\' then ['\\', '\\']
  else if c = '"' then ['\\', '"']
  else if !isCombining c && isPrintable c then [c]
  else ['\\', 'u', '\x7b'] ++ hexDigits c.toNat ++ ['\x7d']

def quoted (text : String) : String :=
  String.ofList ('"' :: text.toList.flatMap showChar ++ ['"'])

def bracketed (parts : List String) : String :=
  "[" ++ joinWith ", " parts ++ "]"

end Throughput.Text
