/-
  Throughput/Failure.lean
  =======================
  **What can go wrong.**  Failures are told apart by their cause; the wording
  of each is fixed by `message`.
-/
import Throughput.Number.Text
import Throughput.Text.Blank

namespace Throughput

/-- Why an operation on a file or another stream of bytes failed. -/
inductive IoError where
  | notFound
  | notADirectory
  | isDirectory
  | fileExists
  | noSpace
  | nameTooLong
  /-- A path with a zero character, which no file system takes. -/
  | zeroInName
  | other (text : String)
  deriving DecidableEq, Repr

def IoError.message : IoError → String
  | notFound => "No such file or directory (os error 2)"
  | fileExists => "File exists (os error 17)"
  | notADirectory => "Not a directory (os error 20)"
  | isDirectory => "Is a directory (os error 21)"
  | noSpace => "No space left on device (os error 28)"
  | nameTooLong => "File name too long (os error 36)"
  | zeroInName => "file name contained an unexpected NUL byte"
  | other text => text

inductive ManifestFault where
  | segments (found : Nat)
  | emptyRun
  | dateComponent (component date : String)
  | dateShape (date : String)
  | noSuchDate (date : String)
  | noHalfOfDay (time : String)
  | hourNotANumber (time : String)
  | hourOutOfRange (time : String)
  deriving DecidableEq, Repr

def ManifestFault.message : ManifestFault → String
  | segments found =>
    "expected 'run -- date -- time', found " ++ natText found ++ " segment(s)"
  | emptyRun => "empty run identifier"
  | dateComponent component date =>
    "invalid date component '" ++ component ++ "' in '" ++ date ++ "'"
  | dateShape date => "date '" ++ date ++ "' is neither month/day nor year/month/day"
  | noSuchDate date => "no such date '" ++ date ++ "'"
  | noHalfOfDay time => "time '" ++ time ++ "' must end in am or pm"
  | hourNotANumber time => "invalid hour in '" ++ time ++ "'"
  | hourOutOfRange time => "hour in '" ++ time ++ "' is outside 1-12"

inductive BandwidthFault where
  | noValueAndUnit
  | unknownUnit
  | valueNotANumber
  | noSummaryLine
  | noPeerLogs
  deriving DecidableEq, Repr

def BandwidthFault.message : BandwidthFault → String
  | noValueAndUnit => "expected a value followed by a unit"
  | unknownUnit => "unit must be Mbits/sec or Gbits/sec"
  | valueNotANumber => "bandwidth value is not a number"
  | noSummaryLine => "log contains no summary line"
  | noPeerLogs => "node has no peer logs"

inductive SettingsFault where
  | percentileOutside (rank : Binary64)
  | factorNotPositive (factor : Binary64)
  | fileNotFound (path : String)
  /-- A file that is no settings file, or a value that does not fit its setting. -/
  | unreadable
  /-- A key that counts back beyond the start of an array, or far beyond its end. -/
  | outsideArray
  deriving DecidableEq

def SettingsFault.message : SettingsFault → String
  | percentileOutside rank => "percentile " ++ rank.plain ++ " is outside [0, 100]"
  | factorNotPositive factor =>
    "bandwidth.gbit_factor must be positive, got " ++ factor.plain
  | fileNotFound path => "configuration file \"" ++ path ++ "\" not found"
  | unreadable => "the settings cannot be read"
  | outsideArray => "a key leads out of an array"

/-- A failure of reading logs, resolving runs or summarizing. -/
inductive Failure where
  | unrecognizedReading (fields : List String)
  | missingTimestamp (run : String)
  | malformedManifestLine (line : Nat) (fault : ManifestFault)
  | emptyInput
  | invalidPercentile (rank : Binary64)
  | malformedBandwidth (line : String) (fault : BandwidthFault)
  | settings (fault : SettingsFault)
  | io (error : IoError)
  deriving DecidableEq

def Failure.message : Failure → String
  | unrecognizedReading fields => "Unrecognized record: " ++ Text.joinWith "," fields
  | missingTimestamp run => "No timestamp recorded for run '" ++ run ++ "'"
  | malformedManifestLine line fault =>
    "Malformed manifest line " ++ natText line ++ ": " ++ fault.message
  | emptyInput => "Cannot summarize an empty sample set"
  | invalidPercentile rank => "Percentile " ++ rank.plain ++ " is outside [0, 100]"
  | malformedBandwidth line fault =>
    "Malformed bandwidth line '" ++ line ++ "': " ++ fault.message
  | settings fault => "Configuration error: " ++ fault.message
  | io error => "I/O error: " ++ error.message

/-- A log as it is delivered: its bytes, and the failure that ended reading
    before the end was reached. -/
structure Source where
  bytes : List UInt8
  failure : Option IoError := none
  deriving DecidableEq

end Throughput
