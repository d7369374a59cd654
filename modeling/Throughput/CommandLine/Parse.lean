/-
  Throughput/CommandLine/Parse.lean
  =================================
  **Reading a command line.**  The words of a level are taken up one by one.  A
  flag or a log is held back until the next one is seen, or the line ends, and
  only then is its value read: so an unknown word is reported before a bad
  value that stands right in front of it.  What is wrong with the command
  counts before what is wrong with the options in front of it.
-/
import Throughput.CommandLine.Option
import Throughput.Environment.Basic

namespace Throughput.CommandLine

/-! ### One level -/

/-- What was seen last and is not read yet. -/
inductive Held where
  | nothing
  /-- A flag that still waits for its value. -/
  | flag (flag : Flag)
  | value (flag : Flag) (text : String)
  | logs (texts : List String)
  deriving DecidableEq, Repr

/-- A level of which some words are read. -/
structure Draft where
  level : Level
  given : List Argument
  logs : List RunInput
  held : Held
  /-- Behind `--` every word is a log. -/
  onlyLogs : Bool
  deriving DecidableEq, Repr

namespace Draft

def start (level : Level) : Draft := ⟨level, [], [], .nothing, false⟩

/-- Takes up a flag with its value, which must be its only one. -/
def give (d : Draft) (flag : Flag) (text : String) : Except Usage Draft :=
  if d.given.any fun a => a.flag == flag then .error .givenTwice
  else do return { d with given := d.given ++ [← flag.read text] }

/-- Reads what is held back. -/
def settle (d : Draft) : Except Usage Draft :=
  let settled := { d with held := .nothing }
  match d.held with
  | .nothing => .ok settled
  | .flag _ => .error .badValue
  | .value flag text => settled.give flag text
  | .logs texts => do return { settled with logs := d.logs ++ (← texts.mapM d.level.readLog) }

/-- Takes up a flag, with the text attached to it if there is one. -/
def flag (d : Draft) (flag : Flag) (attached : Option String) : Except Usage Draft :=
  match flag.takesValue, attached with
  | true, some text => do (← d.settle).give flag text
  | true, none => do return { ← d.settle with held := .flag flag }
  | false, none => do (← d.settle).give flag ""
  | false, some _ => .error .unexpectedValue

/-- Takes up a word that is no flag: the value of a flag that waits for one, or a
    log. -/
def plainWord (d : Draft) (word : String) : Except Usage Draft :=
  if d.level.takesLogs then
    match d.held with
    | .logs texts => .ok { d with held := .logs (texts ++ [word]) }
    | _ => do return { ← d.settle with held := .logs [word] }
  else .error .unknownArgument

/-- The flag of a level with a name. -/
def named? (d : Draft) (name : String) : Option Flag :=
  d.level.flags.find? fun flag => flag.name == name

def lettered? (d : Draft) (letter : Char) : Option Flag :=
  d.level.flags.find? fun flag => flag.letter? == some letter

/-- Cuts a word at its first equals sign. -/
def splitValue (word : List Char) : String × Option String :=
  match word.dropWhile (· != '=') with
  | [] => (String.ofList word, none)
  | _ :: value => (String.ofList (word.takeWhile (· != '=')), some (String.ofList value))

/-- The text attached to the letter of a flag, with or without an equals sign. -/
def attached : List Char → Option String
  | [] => none
  | '=' :: value => some (String.ofList value)
  | value => some (String.ofList value)

/-- Takes up a letter and what is attached to it.  The flags with a letter but
    without a value end the reading, so what is behind them does not matter. -/
def letter (d : Draft) (c : Char) (rest : List Char) : Except Usage Draft :=
  match d.lettered? c with
  | none => .error .unknownArgument
  | some flag => d.flag flag (if flag.takesValue then attached rest else none)

def word (d : Draft) (word : String) : Except Usage Draft :=
  if d.onlyLogs then d.plainWord word
  else match word.toList with
    | ['-', '-'] => .ok { d with onlyLogs := true }
    | '-' :: '-' :: long =>
      let (name, value) := splitValue long
      match d.named? name with
      | none => .error .unknownArgument
      | some flag => d.flag flag value
    | '-' :: c :: rest => d.letter c rest
    | _ =>
      match d.held with
      | .flag flag => .ok { d with held := .value flag word }
      | _ => d.plainWord word

def waits (d : Draft) : Bool :=
  match d.held with
  | .flag _ => true
  | _ => false

/-- Takes up what the environment says of the settings file, if the level was
    given none. -/
def environment (env : Environment) (d : Draft) : Except Usage Draft :=
  match env.lookup "BENCHLOG_CONFIG" with
  | some text =>
    if d.given.any fun a => a.flag == .settings then .ok d
    else d.give .settings text
  | none => .ok d

def finish (env : Environment) (d : Draft) : Except Usage Draft := do
  (← d.settle).environment env

end Draft

/-! ### Commands -/

/-- The first value that arguments have for something. -/
def first? {α : Type} (value? : Argument → Option α) (given : List Argument) : Option α :=
  given.findSome? value?

def settingsOf (given : List Argument) : Option Path :=
  first? (fun | .settings path => some path | _ => none) given

def delimiterOf (given : List Argument) : Option Delimiter :=
  first? (fun | .delimiter d => some d | _ => none) given

def manifestOf (given : List Argument) : Option Path :=
  first? (fun | .manifest path => some path | _ => none) given

def groupingOf (given : List Argument) : Grouping :=
  (first? (fun | .grouping g => some g | _ => none) given).getD .label

def outputOf (given : List Argument) : OutputOptions where
  format := (first? (fun | .format f => some f | _ => none) given).getD .text
  report := first? (fun | .report path => some path | _ => none) given
  series := first? (fun | .series path => some path | _ => none) given

namespace Draft

/-- The command of a level that was read; logs have to be named, and a timeline
    needs a manifest. -/
def command (d : Draft) : Except Usage Command :=
  if d.level.takesLogs ∧ d.logs.isEmpty then .error .missing
  else match d.level with
    | .program => .error .noCommand
    | .disk => .ok (.disk (d.logs.map (·.path)) (delimiterOf d.given) (outputOf d.given))
    | .timeline =>
      match manifestOf d.given with
      | none => .error .missing
      | some manifest => .ok (.timeline manifest (groupingOf d.given) d.logs
          (delimiterOf d.given) (outputOf d.given))
    | .network => .ok (.network d.logs (manifestOf d.given)
        (d.given.any fun a => a.flag == .perNode) (outputOf d.given))
    | .status => .ok .status

def words (d : Draft) (words : List String) : Except Usage Draft := words.foldlM word d

end Draft

def isCommand (word : String) : Bool := word == "help" || (Level.ofCommand? word).isSome

/-- What `help` leads to: help on a command, or on itself. -/
def helpOn : List String → Usage
  | [] => .help
  | [word] => if isCommand word then .help else .unknownCommand
  | _ => .unknownCommand

def isFlag (word : String) : Bool :=
  match word.toList with
  | '-' :: _ :: _ => true
  | _ => false

/-- The words of the program up to its command: what is read of them, and the
    command with the words that follow.  Behind `--` no command is looked for. -/
def split (d : Draft) : List String → Except Usage (Draft × Option (Level × List String))
  | [] => .ok (d, none)
  | word :: rest =>
    if d.onlyLogs then .error (if isCommand word then .unknownArgument else .unknownCommand)
    else if d.waits || isFlag word then do split (← d.word word) rest
    else if word = "help" then .error (helpOn rest)
    else match Level.ofCommand? word with
      | some level => .ok (d, some (level, rest))
      | none => .error .unknownCommand

/-- What is missing when there is no command. -/
def withoutCommand (d : Draft) : Usage :=
  if d.given.isEmpty then .nothingGiven else .noCommand

/-- The invocation that a command line asks for.  A settings file given with the
    command counts before one given in front of it, and both before one that the
    environment names. -/
def parse (env : Environment) (arguments : List String) : Except Usage Invocation := do
  let (outer, command) ← split (.start .program) arguments
  match command with
  | none => throw (withoutCommand (← outer.finish env))
  | some (level, rest) =>
    let inner ← (← Draft.words (.start level) rest).settle
    let command ← (← inner.environment env).command
    let outer ← outer.settle
    let _ ← outer.environment env
    let settings := settingsOf (inner.given ++ outer.given)
    let fromEnvironment := (env.lookup "BENCHLOG_CONFIG").map Path.mk
    return ⟨settings.orElse fun _ => fromEnvironment, command⟩

end Throughput.CommandLine
