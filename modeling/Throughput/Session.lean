/-
  Throughput/Session.lean
  =======================
  **Taking in logs.**  A session collects the samples of any number of logs.  It
  counts every reading and keeps the unrecognized ones.  A log whose bandwidth
  cannot be read leaves the session as it was; a disk log that breaks off
  leaves what its whole lines brought in.
-/
import Throughput.Bandwidth
import Throughput.Series.Collector

namespace Throughput

structure Session (κ : Type) [SeriesKey κ] where
  delimiter : Delimiter
  rule : BandwidthRule
  collector : Collector κ
  readings : Nat
  unrecognized : Array Reading

namespace Session

variable {κ : Type} [SeriesKey κ]

def start (delimiter : Delimiter) (rule : BandwidthRule) : Session κ :=
  ⟨delimiter, rule, .empty, 0, #[]⟩

/-! ### Disk logs -/

/-- Counts a reading, and keeps its sample under the key it is given. -/
def take (time : Option Stamp) (key : Reading → κ) (s : Session κ) (r : Reading) : Session κ :=
  match r.verdict with
  | .measured operation =>
    { s with
      readings := s.readings + 1
      collector := s.collector.push ⟨.ofOperation operation, key r⟩ time r.value }
  | .unrecognized _ =>
    { s with readings := s.readings + 1, unrecognized := s.unrecognized.push r }

def line (time : Option Stamp) (key : Reading → κ) (s : Session κ) (text : List Char) :
    Session κ :=
  match Reading.parse? s.delimiter text with
  | none => s
  | some r => s.take time key r

/-- Takes in one line of bytes; only a candidate is decoded. -/
def byteLine (time : Option Stamp) (key : Reading → κ) (s : Session κ) (bytes : List UInt8) :
    Session κ :=
  let bytes := Text.dropReturn bytes
  if Reading.isCandidate bytes then s.line time key (Text.decodeUtf8 bytes) else s

/-- Takes in a disk log and counts its readings.  Samples of a run carry the
    time it was taken. -/
def diskLog (time : Option Stamp) (key : Reading → κ) (s : Session κ) (log : Source) :
    Except Failure Nat × Session κ :=
  match log.failure with
  | none =>
    let after := (Text.byteLines log.bytes).foldl (byteLine time key) s
    (.ok (after.readings - s.readings), after)
  | some error =>
    (.error (.io error), (Text.endedLines log.bytes).foldl (byteLine time key) s)

/-! ### Network logs -/

def takeBandwidth (key : κ) (s : Session κ) (value : Binary64) : Session κ :=
  { s with
    readings := s.readings + 1
    collector := s.collector.push ⟨.bandwidth, key⟩ none value }

/-- Takes in a network log, which is one reading. -/
def networkLog (key : κ) (s : Session κ) (log : Source) : Except Failure Binary64 × Session κ :=
  match s.rule.ofLog log with
  | .ok value => (.ok value, s.takeBandwidth key value)
  | .error failure => (.error failure, s)

/-- The sum of the bandwidths that logs report, added from the left. -/
def totalBandwidth (rule : BandwidthRule) (logs : List Source) : Except Failure Binary64 :=
  if logs.isEmpty then .error (.malformedBandwidth "" .noPeerLogs)
  else logs.foldlM (fun total log => (rule.ofLog log).map (total + ·)) (.zero false)

/-- Takes in the logs that a node wrote, one for each of its peers.  They are
    one reading, the node's total outgoing bandwidth. -/
def nodeLogs (key : κ) (s : Session κ) (logs : List Source) :
    Except Failure Binary64 × Session κ :=
  match totalBandwidth s.rule logs with
  | .ok value => (.ok value, s.takeBandwidth key value)
  | .error failure => (.error failure, s)

end Session

end Throughput
