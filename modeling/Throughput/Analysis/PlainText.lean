/-
  Throughput/Analysis/PlainText.lean
  ==================================
  **The plain report**, as a terminal shows it.  A withheld analysis lists its
  unrecognized readings and nothing else.
-/
import Throughput.Analysis.Basic
import Throughput.Text.Quoted

namespace Throughput.Analysis

def textLine (parts : List String) : String := String.join parts ++ "\n"

/-- A metric in a sentence, for one sample and for many. -/
def noun : Metric → String × String
  | .read => ("read bandwidth", "reads")
  | .write => ("write bandwidth", "writes")
  | .bandwidth => ("network bandwidth", "network bandwidth")

/-- The lines of a series with samples. -/
def statisticsText (metric : Metric) (unit : String) (s : Statistics Binary64) : String :=
  let (one, many) := noun metric
  let percentiles :=
    if s.percentiles.isEmpty then ""
    else
      textLine ["CDF for ", many, ":"] ++
        String.join (s.percentiles.map fun p =>
          textLine [p.rank.plain, "th percentile: ", p.value.fixed 6])
  String.join [
    textLine ["Samples: ", natText s.count],
    textLine ["Max ", one, ": ", s.greatest.plain, " ", unit],
    textLine ["Min ", one, ": ", s.least.plain, " ", unit],
    textLine ["Mean: ", s.mean.fixed 3, " ", unit],
    textLine ["Median: ", s.median.fixed 3, " ", unit],
    textLine ["Std: ", s.deviation.fixed 3, " ", unit],
    percentiles]

/-- One series, under a heading if it has a label. -/
def seriesText (s : SeriesSummary) : String :=
  let heading :=
    if s.label = "" then ""
    else textLine [] ++ textLine ["[", s.label, "] ", s.metric.name]
  heading ++
    match s.statistics with
    | none => textLine ["No samples"]
    | some statistics => statisticsText s.metric s.unit statistics

def plainText (a : Analysis) : String :=
  if a.withheld then
    let readings := a.unrecognized.map fun fields => Text.bracketed (fields.map Text.quoted)
    textLine ["Could not recognize these readings: ", Text.bracketed readings]
  else
    textLine ["No. of readings: ", natText a.readings] ++ String.join (a.series.map seriesText)

end Throughput.Analysis
