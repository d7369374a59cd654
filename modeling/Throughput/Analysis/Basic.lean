/-
  Throughput/Analysis/Basic.lean
  ==============================
  **Analyses.**  An analysis is a report ready to be shown: it has a title, its
  keys have become labels, and it knows when it was made.
-/
import Throughput.Report

namespace Throughput

/-- The summary of one series under its label. -/
structure SeriesSummary where
  metric : Metric
  unit : String
  label : String
  count : Nat
  statistics : Option (Statistics Binary64)
  deriving DecidableEq

/-- A report ready to be shown.  The time it was made is universal time. -/
structure Analysis where
  title : String
  readings : Nat
  unrecognized : List (List String)
  withheld : Bool
  series : List SeriesSummary
  generated : Stamp
  deriving DecidableEq

namespace SeriesSummary

def ofGroup {κ : Type} [SeriesKey κ] (g : GroupSummary κ) : SeriesSummary where
  metric := g.metric
  unit := g.metric.unit
  label := SeriesKey.label g.key
  count := g.count
  statistics := g.statistics

end SeriesSummary

def Analysis.ofReport {κ : Type} [SeriesKey κ] (title : String) (generated : Stamp)
    (r : Report κ) : Analysis where
  title := title
  readings := r.readings
  unrecognized := r.unrecognized
  withheld := r.withheld
  series := r.series.map SeriesSummary.ofGroup
  generated := generated

end Throughput
