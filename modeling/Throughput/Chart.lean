/-
  Throughput/Chart.lean
  =====================
  **Series for charting.**  The samples of finished groups as a JSON file, with
  the points of a series left out when it has none.
-/
import Throughput.Analysis.File

namespace Throughput

/-- The samples of one series under its label. -/
structure ChartSeries where
  metric : Metric
  unit : String
  label : String
  samples : List Binary64
  points : List TimedSample
  deriving DecidableEq

namespace ChartSeries

def ofGroup {κ : Type} [SeriesKey κ] (g : Group κ) : ChartSeries where
  metric := g.metric
  unit := g.metric.unit
  label := SeriesKey.label g.key
  samples := g.samples
  points := g.points

end ChartSeries

namespace Json

/-! ### Writing -/

def ofTimedSample (p : TimedSample) : Json :=
  record [("timestamp", ofString (String.ofList p.time.iso)), ("value", ofBinary64 p.value)]

def ofChartSeries (s : ChartSeries) : Json :=
  record ([
    ("metric", ofString s.metric.name),
    ("unit", ofString s.unit),
    ("key", ofString s.label),
    ("samples", ofList ofBinary64 s.samples)] ++
    if s.points.isEmpty then [] else [("points", ofList ofTimedSample s.points)])

/-! ### Reading -/

def time? (value : Json) : Option Stamp := do
  Stamp.ofText? (← text? value).toList

def timedSample? (value : Json) : Option TimedSample := do
  match ← slots? ["timestamp", "value"] 2 value with
  | [some time, some value] => return ⟨← time? time, ← binary64? value⟩
  | _ => none

/-- Missing points are none. -/
def chartSeries? (value : Json) : Option ChartSeries := do
  match ← slots? ["metric", "unit", "key", "samples", "points"] 4 value with
  | [some metric, some unit, some label, some samples, points] =>
    return {
      metric := ← metric? metric
      unit := ← text? unit
      label := ← text? label
      samples := ← list? binary64? samples
      points := ← list? timedSample? (points.getD (array [])) }
  | _ => none

end Json

namespace ChartSeries

def fileText (series : List ChartSeries) : String :=
  (Json.ofList Json.ofChartSeries series).prettyText

def ofFileText? (text : String) : Option (List ChartSeries) :=
  (Json.ofText? text.toList).bind (Json.list? Json.chartSeries?)

/-- The series in a file, which has to be well-formed UTF-8 to its end. -/
def ofFile? (files : Files) (path : Path) : Option (List ChartSeries) :=
  match files.opened path with
  | .ok ⟨bytes, none⟩ => (Text.utf8? bytes).bind fun cs => ofFileText? (String.ofList cs)
  | _ => none

end ChartSeries

end Throughput
