/-
  Throughput/Environment/Basic.lean
  =================================
  **The environment.**  Variables have a name and a text, and are kept as
  entries `NAME=text`.  A variable that is set is not preset again, and no text
  of a variable has a zero character.
-/
import Throughput.Text.Blank
import Throughput.Text.Utf8

namespace Throughput

/-- The variables of the environment, each named once. -/
abbrev Environment := List (String × String)

/-- Sets a variable unless it is set; nothing if it cannot have the text. -/
def Environment.preset? (env : Environment) (name text : String) : Option Environment :=
  match env.lookup name with
  | some _ => some env
  | none => if text.toList.contains '\x00' then none else some (env ++ [(name, text)])

def Environment.after? (beginning cs : List Char) : Option (List Char) :=
  if beginning.isPrefixOf cs then some (cs.drop beginning.length) else none

/-- The text of a variable, found in the first entry that begins with its name and
    an equals sign.  A name with an equals sign in it can reach into a text. -/
def Environment.text? (env : Environment) (name : List Char) : Option (List Char) :=
  if name.isEmpty then none
  else env.findSome? fun (other, text) =>
    after? (name ++ ['=']) (other.toList ++ '=' :: text.toList)

/-- A variable from its bytes, `NAME=text`. -/
def Environment.entry? (bytes : List UInt8) : Option (String × String) :=
  let cs := Text.decodeUtf8 bytes
  match cs.dropWhile (· != '=') with
  | [] => none
  | _ :: text => some (String.ofList (cs.takeWhile (· != '=')), String.ofList text)

/-- The environment from a block of bytes in which a zero ends each variable. -/
def Environment.ofBlock (block : List UInt8) : Environment :=
  (Text.pieces (· == 0) block).filterMap entry?

end Throughput
