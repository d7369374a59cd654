/-
  Throughput/Report.lean
  ======================
  **Reports.**  A finished session is a collection of groups; summarizing it
  gives a report.  If a reading was not recognized, all statistics are withheld
  and the report lists the readings in question instead.
-/
import Throughput.Session
import Throughput.Statistics

namespace Throughput

structure Collection (κ : Type) where
  readings : Nat
  unrecognized : List Reading
  groups : List (Group κ)

/-- The statistics of one group; a gap has none. -/
structure GroupSummary (κ : Type) where
  metric : Metric
  key : κ
  count : Nat
  statistics : Option (Statistics Binary64)
  deriving DecidableEq

structure Report (κ : Type) where
  readings : Nat
  unrecognized : List (List String)
  withheld : Bool
  series : List (GroupSummary κ)
  deriving DecidableEq

namespace Session

variable {κ : Type} [SeriesKey κ]

def finish (s : Session κ) : Collection κ :=
  ⟨s.readings, s.unrecognized.toList, s.collector.finish⟩

/-- Finishes a daily series without missing days. -/
def finishContiguous (s : Session Date) : Collection Date :=
  ⟨s.readings, s.unrecognized.toList, s.collector.finishContiguous⟩

end Session

def Reading.rawFields (r : Reading) : List String :=
  match r.verdict with
  | .measured _ => []
  | .unrecognized fields => fields

def Group.summarize {κ : Type} (ranks : List Binary64) (g : Group κ) :
    Except Failure (GroupSummary κ) :=
  if g.isEmpty then .ok ⟨g.metric, g.key, 0, none⟩
  else do
    let statistics ← Statistics.ofSamples g.samples ranks
    return ⟨g.metric, g.key, g.count, some statistics⟩

namespace Collection

variable {κ : Type}

/-- Every reading was recognized. -/
def isTrustworthy (c : Collection κ) : Bool := c.unrecognized.isEmpty

/-- Summarizes every group, or withholds all statistics. -/
def summarize (ranks : List Binary64) (c : Collection κ) : Except Failure (Report κ) :=
  let unrecognized := c.unrecognized.map Reading.rawFields
  if c.isTrustworthy then do
    let series ← c.groups.mapM (Group.summarize ranks)
    return ⟨c.readings, unrecognized, false, series⟩
  else .ok ⟨c.readings, unrecognized, true, []⟩

end Collection

/-! ### Reports as JSON -/

namespace Json

def ofPercentile (p : Percentile Binary64) : Json :=
  record [("rank", ofBinary64 p.rank), ("value", ofBinary64 p.value)]

def ofStatistics (s : Statistics Binary64) : Json :=
  record [
    ("count", ofNat s.count),
    ("min", ofBinary64 s.least),
    ("max", ofBinary64 s.greatest),
    ("mean", ofBinary64 s.mean),
    ("median", ofBinary64 s.median),
    ("stddev", ofBinary64 s.deviation),
    ("percentiles", ofList ofPercentile s.percentiles)]

def ofFields (readings : List (List String)) : Json := ofList (ofList ofString) readings

def ofGroupSummary {κ : Type} [SeriesKey κ] (g : GroupSummary κ) : Json :=
  record [
    ("metric", ofString g.metric.name),
    ("key", SeriesKey.json g.key),
    ("count", ofNat g.count),
    ("statistics", ofOption ofStatistics g.statistics)]

def ofReport {κ : Type} [SeriesKey κ] (r : Report κ) : Json :=
  record [
    ("readings", ofNat r.readings),
    ("unrecognized", ofFields r.unrecognized),
    ("withheld", boolean r.withheld),
    ("series", ofList ofGroupSummary r.series)]

end Json

end Throughput
