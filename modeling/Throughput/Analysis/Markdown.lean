/-
  Throughput/Analysis/Markdown.lean
  =================================
  **The markdown report.**  Series become rows of one table.  Its percentile
  columns are the ranks of the first series that has statistics.
-/
import Throughput.Analysis.PlainText

namespace Throughput.Analysis

/-- A value in two decimal places, or a dash. -/
def cell : Option Binary64 → String
  | none => "-"
  | some x => x.fixed 2

def tableRow (cells : List String) : String :=
  textLine ["|", String.join (cells.map fun c => " " ++ c ++ " |")]

/-- The ranks that have a column. -/
def columnRanks (series : List SeriesSummary) : List Binary64 :=
  match series.findSome? (·.statistics) with
  | none => []
  | some s => s.percentiles.map (·.rank)

def headerRow (ranks : List Binary64) : String :=
  tableRow (["Metric", "Key", "Unit", "Count", "Min", "Max", "Mean", "Median", "Std"] ++
    ranks.map fun rank => "p" ++ rank.plain)

def ruleRow (ranks : List Binary64) : String :=
  textLine ["|--------|-----|------|-------|-----|-----|------|--------|-----|",
    String.join (ranks.map fun _ => "-----|")]

def seriesRow (ranks : List Binary64) (s : SeriesSummary) : String :=
  tableRow ([
    s.metric.name,
    if s.label = "" then "-" else s.label,
    s.unit,
    natText s.count,
    cell (s.statistics.map (·.least)),
    cell (s.statistics.map (·.greatest)),
    cell (s.statistics.map (·.mean)),
    cell (s.statistics.map (·.median)),
    cell (s.statistics.map (·.deviation))] ++
    ranks.map fun rank => cell (s.statistics.bind (·.percentile? rank)))

/-- The time the analysis was made, with the offset of universal time. -/
def generatedText (a : Analysis) : String := String.ofList a.generated.iso ++ "+00:00"

def markdown (a : Analysis) : String :=
  let top := String.join [
    textLine ["# ", a.title, " summary"],
    textLine [],
    textLine ["Generated: ", a.generatedText],
    textLine [],
    textLine ["Readings: ", natText a.readings],
    textLine []]
  if a.withheld then
    String.join [
      top,
      textLine ["## Unrecognized readings"],
      textLine [],
      String.join (a.unrecognized.map fun fields =>
        textLine ["- `", Text.joinWith "," fields, "`"]),
      textLine [],
      textLine ["Statistics withheld."]]
  else
    let ranks := columnRanks a.series
    String.join [
      top,
      headerRow ranks,
      ruleRow ranks,
      String.join (a.series.map (seriesRow ranks)),
      textLine [],
      textLine ["---"],
      textLine ["Total series: ", natText a.series.length]]

end Throughput.Analysis
