/-
  Throughput/Bandwidth.lean
  =========================
  **Bandwidth summaries.**  The last line of a network log ends in a value and
  its unit.  Values are brought to Mbit/s, those in Gbit/s by a factor that can
  be chosen.
-/
import Throughput.Failure
import Throughput.Number.Decimal
import Throughput.Text.Lines
import Throughput.Text.Utf8

namespace Throughput

inductive BandwidthUnit where
  | mbits
  | gbits
  deriving DecidableEq, Repr

def BandwidthUnit.ofText? (text : List Char) : Option BandwidthUnit :=
  if text = "Mbits/sec".toList then some .mbits
  else if text = "Gbits/sec".toList then some .gbits
  else none

/-- How many Mbit/s make one Gbit/s. -/
structure BandwidthRule where
  gbitFactor : Binary64
  deriving DecidableEq

namespace BandwidthRule

/-- The rule used when none is set. -/
def standard : BandwidthRule := ⟨Binary64.ofNat 1024⟩

/-- A value in Mbit/s. -/
def normalize (rule : BandwidthRule) (value : Binary64) : BandwidthUnit → Binary64
  | .mbits => value
  | .gbits => value * rule.gbitFactor

/-- The bandwidth on a summary line: its last two words are a value and a unit. -/
def ofLine (rule : BandwidthRule) (line : List Char) : Except Failure Binary64 :=
  let malformed := Failure.malformedBandwidth (String.ofList (Text.trimEnd line))
  match (Text.words line).reverse with
  | unit :: value :: _ =>
    match BandwidthUnit.ofText? unit with
    | none => .error (malformed .unknownUnit)
    | some unit =>
      match Binary64.ofText? value with
      | none => .error (malformed .valueNotANumber)
      | some value => .ok (rule.normalize value unit)
  | _ => .error (malformed .noValueAndUnit)

/-- The last line that is not blank. -/
def lastLine? (lines : List (List UInt8)) : Option (List UInt8) :=
  (lines.filter fun line => !line.all Text.isAsciiBlank).getLast?

/-- The bandwidth that a log reports at its end. -/
def ofLog (rule : BandwidthRule) (log : Source) : Except Failure Binary64 :=
  match log.failure with
  | some error => .error (.io error)
  | none =>
    match lastLine? ((Text.byteLines log.bytes).map Text.dropReturn) with
    | some line => rule.ofLine (Text.decodeUtf8 line)
    | none => .error (.malformedBandwidth "" .noSummaryLine)

end BandwidthRule

end Throughput
