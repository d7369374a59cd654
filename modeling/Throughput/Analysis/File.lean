/-
  Throughput/Analysis/File.lean
  =============================
  **Analyses as JSON files.**  `Json.ofAnalysis` and `Json.analysis?` write and
  read an analysis.  A field that is missing, stands twice or holds data of
  another kind makes a file unreadable; fields of other names do not matter.
-/
import Throughput.Analysis.Basic
import Throughput.Calendar.Scan
import Throughput.Json.Decoding
import Throughput.Storage.Files
import Throughput.Text.Utf8

namespace Throughput.Json

/-! ### Writing -/

def ofSeriesSummary (s : SeriesSummary) : Json :=
  record [
    ("metric", ofString s.metric.name),
    ("unit", ofString s.unit),
    ("key", ofString s.label),
    ("count", ofNat s.count),
    ("statistics", ofOption ofStatistics s.statistics)]

def ofAnalysis (a : Analysis) : Json :=
  record [
    ("title", ofString a.title),
    ("readings", ofNat a.readings),
    ("unrecognized", ofFields a.unrecognized),
    ("withheld", boolean a.withheld),
    ("series", ofList ofSeriesSummary a.series),
    ("generated_at", ofString (String.ofList (a.generated.iso ++ ['Z'])))]

/-! ### Reading -/

/-- A metric by its name, or as an object that holds nothing under its name. -/
def metric? : Json → Option Metric
  | string (some name) => Metric.ofName? name
  | object [(some name, null)] => Metric.ofName? name
  | _ => none

def percentile? (value : Json) : Option (Percentile Binary64) := do
  match ← slots? ["rank", "value"] 2 value with
  | [some rank, some value] => return ⟨← binary64? rank, ← binary64? value⟩
  | _ => none

def statistics? (value : Json) : Option (Statistics Binary64) := do
  match ← slots? ["count", "min", "max", "mean", "median", "stddev", "percentiles"] 7 value with
  | [some count, some least, some greatest, some mean, some median, some deviation,
      some percentiles] =>
    return {
      count := ← nat? count
      least := ← binary64? least
      greatest := ← binary64? greatest
      mean := ← binary64? mean
      median := ← binary64? median
      deviation := ← binary64? deviation
      percentiles := ← list? percentile? percentiles }
  | _ => none

/-- Missing statistics are none. -/
def seriesSummary? (value : Json) : Option SeriesSummary := do
  match ← slots? ["metric", "unit", "key", "count", "statistics"] 5 value with
  | [some metric, some unit, some label, some count, statistics] =>
    return {
      metric := ← metric? metric
      unit := ← text? unit
      label := ← text? label
      count := ← nat? count
      statistics := ← option? statistics? (statistics.getD null) }
  | _ => none

/-- A time with its offset. -/
def moment? (value : Json) : Option Stamp := do
  Stamp.ofZonedText? (← text? value).toList

def analysis? (value : Json) : Option Analysis := do
  match ← slots? ["title", "readings", "unrecognized", "withheld", "series", "generated_at"] 6
      value with
  | [some title, some readings, some unrecognized, some withheld, some series, some generated] =>
    return {
      title := ← text? title
      readings := ← nat? readings
      unrecognized := ← list? (list? text?) unrecognized
      withheld := ← boolean? withheld
      series := ← list? seriesSummary? series
      generated := ← moment? generated }
  | _ => none

end Throughput.Json

namespace Throughput.Analysis

def fileText (a : Analysis) : String := (Json.ofAnalysis a).prettyText

def ofFileText? (text : String) : Option Analysis := (Json.ofText? text.toList).bind Json.analysis?

/-- The analysis in a file, which has to be well-formed UTF-8 to its end. -/
def ofFile? (files : Files) (path : Path) : Option Analysis :=
  match files.opened path with
  | .ok ⟨bytes, none⟩ => (Text.utf8? bytes).bind fun cs => ofFileText? (String.ofList cs)
  | _ => none

end Throughput.Analysis
