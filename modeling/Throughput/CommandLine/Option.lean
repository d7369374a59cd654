/-
  Throughput/CommandLine/Option.lean
  ==================================
  **Options.**  The program itself and each of its commands is a level of the
  command line with options of its own; the settings file and the two log
  options are known at every level.  `Flag.read` turns the text of an option
  into an `Argument`.
-/
import Throughput.Command.Basic

namespace Throughput.CommandLine

/-- Why a command line is not carried out: it asks for help or the version, or
    it does not say what to do. -/
inductive Usage where
  | help
  | version
  /-- There is nothing on the command line, so help is shown. -/
  | nothingGiven
  | noCommand
  | unknownCommand
  | unknownArgument
  /-- An option that can be given once is given twice. -/
  | givenTwice
  /-- A value is missing, or is none of those that an option can have. -/
  | badValue
  /-- An argument does not name a log. -/
  | badLog
  /-- A value is given to an option that has none. -/
  | unexpectedValue
  /-- A log or an option that has to be given is missing. -/
  | missing
  deriving DecidableEq, Repr

/-- A part of the command line with options of its own. -/
inductive Level where
  | program
  | disk
  | timeline
  | network
  | status
  deriving DecidableEq, Repr

/-- What can be given by name. -/
inductive Flag where
  | settings
  | logLevel
  | logFormat
  | format
  | report
  | series
  | delimiter
  | manifest
  | grouping
  | perNode
  | help
  | version
  deriving DecidableEq, Repr

inductive Argument where
  | settings (path : Path)
  | logLevel (filter : String)
  | logFormat (json : Bool)
  | format (format : OutputFormat)
  | report (path : Path)
  | series (path : Path)
  | delimiter (delimiter : Delimiter)
  | manifest (path : Path)
  | grouping (grouping : Grouping)
  | perNode
  deriving DecidableEq, Repr

/-! ### Names -/

namespace Level

/-- The command that a word names. -/
def ofCommand? (word : String) : Option Level :=
  [("disk", disk), ("timeline", timeline), ("network", network), ("status", status)].lookup word

/-- The flags that every level knows. -/
def common : List Flag := [.settings, .logLevel, .logFormat, .help]

def outputFlags : List Flag := [.format, .report, .series]

def flags : Level → List Flag
  | program => .version :: common
  | disk => .delimiter :: outputFlags ++ common
  | timeline => [.manifest, .grouping, .delimiter] ++ outputFlags ++ common
  | network => [.manifest, .perNode] ++ outputFlags ++ common
  | status => common

def takesLogs : Level → Bool
  | disk | timeline | network => true
  | program | status => false

end Level

namespace Flag

/-- The name of a flag behind two dashes. -/
def name : Flag → String
  | settings => "config"
  | logLevel => "log-level"
  | logFormat => "log-format"
  | format => "format"
  | report => "output"
  | series => "series-out"
  | delimiter => "delimiter"
  | manifest => "manifest"
  | grouping => "group-by"
  | perNode => "per-node"
  | help => "help"
  | version => "version"

/-- The letter of a flag behind one dash. -/
def letter? : Flag → Option Char
  | settings => some 'c'
  | format => some 'f'
  | report => some 'o'
  | delimiter => some 'd'
  | manifest => some 'm'
  | grouping => some 'g'
  | help => some 'h'
  | version => some 'V'
  | logLevel | logFormat | series | perNode => none

def takesValue : Flag → Bool
  | perNode | help | version => false
  | _ => true

/-! ### Values -/

/-- The value that a word stands for among those of an option. -/
def choose {α : Type} (words : List (String × α)) (word : String) : Except Usage α :=
  match words.lookup word with
  | some value => .ok value
  | none => .error .badValue

/-- A path, which must not be empty. -/
def readPath (text : String) : Except Usage Path :=
  if text.isEmpty then .error .badValue else .ok ⟨text⟩

/-- The argument that a flag and the text of its value make. -/
def read (text : String) : Flag → Except Usage Argument
  | settings => .settings <$> readPath text
  | logLevel => .ok (.logLevel text)
  | logFormat => .logFormat <$> choose [("text", false), ("json", true)] text
  | format => .format <$> choose [("text", .text), ("markdown", .markdown), ("json", .json)] text
  | report => .report <$> readPath text
  | series => .series <$> readPath text
  | delimiter =>
    .delimiter <$> choose [("comma", .comma), ("whitespace", .whitespace)] text
  | manifest => .manifest <$> readPath text
  | grouping =>
    .grouping <$> choose [("label", .label), ("date", .date), ("timestamp", .timestamp)] text
  | perNode => .ok .perNode
  | help => .error .help
  | version => .error .version

end Flag

namespace Argument

def flag : Argument → Flag
  | settings _ => .settings
  | logLevel _ => .logLevel
  | logFormat _ => .logFormat
  | format _ => .format
  | report _ => .report
  | series _ => .series
  | delimiter _ => .delimiter
  | manifest _ => .manifest
  | grouping _ => .grouping
  | perNode => .perNode

end Argument

/-- A log named at a level: a disk log by its path, any other with its run. -/
def Level.readLog (text : String) : Level → Except Usage RunInput
  | disk => (fun path => ⟨none, path⟩) <$> Flag.readPath text
  | _ =>
    match RunInput.ofText text with
    | .ok log => .ok log
    | .error _ => .error .badLog

end Throughput.CommandLine
