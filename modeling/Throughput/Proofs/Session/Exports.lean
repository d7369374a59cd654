/-
  Throughput/Proofs/Session/Exports.lean
  ======================================
  **Two exports of one session.**  The analysis shows statistics, the chart shows
  samples, and each is made from the groups of a finished session in its own way.
  They fit together series by series (`exports_agree`): the statistics are those of
  the samples in the chart, and missing exactly where the chart has none.

  What a chart says of one series beside its samples is `ChartSeries.IsSampled`.
-/
import Throughput.Chart
import Throughput.Proofs.Report.Summaries
import Throughput.Proofs.Session.Finishing

namespace Throughput

/-! ### One series in both exports -/

/-- A summary and a chart series that show the same series. -/
structure SeriesSummary.Portrays (ranks : List Binary64) (summary : SeriesSummary)
    (chart : ChartSeries) : Prop where
  metric_eq : summary.metric = chart.metric
  unit_eq : summary.unit = chart.unit
  label_eq : summary.label = chart.label
  count_eq : summary.count = chart.samples.length
  statistics_eq_none_iff : summary.statistics = none ↔ chart.samples = []
  describes : ∀ t, summary.statistics = some t → t.Describes ranks chart.samples

/-- Points that are samples, none of them more often than it was sampled. -/
structure ChartSeries.IsSampled (chart : ChartSeries) : Prop where
  value_mem : ∀ p ∈ chart.points, p.value ∈ chart.samples
  count_le : ∀ x, (chart.points.map (·.value)).count x ≤ chart.samples.count x

theorem ChartSeries.isSampled_of_subperm {chart : ChartSeries}
    (h : (chart.points.map (·.value)).Subperm chart.samples) : chart.IsSampled := by
  constructor
  · intro p hp
    exact h.subset (List.mem_map_of_mem hp)
  · intro x
    exact h.count_le x

theorem Group.portrays_of_summarize {κ : Type} [SeriesKey κ] {g : Group κ}
    {ranks : List Binary64} {summary : GroupSummary κ} (h : g.summarize ranks = .ok summary) :
    (SeriesSummary.ofGroup summary).Portrays ranks (ChartSeries.ofGroup g) := by
  rcases Group.summarize_eq_ok_iff.1 h with ⟨hnil, rfl⟩ | ⟨t, ht, rfl⟩
  · refine ⟨rfl, rfl, rfl, ?_, ?_, ?_⟩
    · exact (List.length_eq_zero_iff.2 hnil).symm
    · exact iff_of_true rfl hnil
    · intro t ht
      cases ht
  · refine ⟨rfl, rfl, rfl, rfl, ?_, ?_⟩
    · apply iff_of_false
      · intro hnone
        cases hnone
      · exact Statistics.ne_nil_of_ofSamples ht
    · intro t' ht'
      cases ht'
      exact Statistics.describes_of_ofSamples ht

theorem Collection.portrays_of_summarize {κ : Type} [SeriesKey κ] {c : Collection κ}
    (htrust : c.isTrustworthy = true) {ranks : List Binary64} {report : Report κ}
    (h : c.summarize ranks = .ok report) (title : String) (generated : Stamp) :
    List.Forall₂ (SeriesSummary.Portrays ranks) (Analysis.ofReport title generated report).series
      (c.groups.map ChartSeries.ofGroup) := by
  rcases Collection.summarize_eq_ok_iff.1 h with ⟨-, series, hseries, rfl⟩ | ⟨hnot, -⟩
  · rw [Analysis.ofReport, List.forall₂_map_left_iff, List.forall₂_map_right_iff]
    apply (mapM_eq_ok_iff.1 hseries).flip.imp
    intro summary g hsummary
    exact Group.portrays_of_summarize hsummary
  · rw [htrust] at hnot
    cases hnot

/-! ### Both exports of a session -/

namespace Session

/-- **Analysis and chart show the same series.**  After any steps, and however the
    session is finished, the series of an analysis and of the chart stand in one order
    and agree one by one, gaps included; and the points in the chart are samples. -/
theorem exports_agree {κ : Type} [SeriesKey κ] {d : Delimiter} {rule : BandwidthRule}
    {steps : List (Feed κ)} {c : Collection κ} (h : (after d rule steps).Finishes c) :
    (c.isTrustworthy = true → ∀ ranks report, c.summarize ranks = .ok report →
      ∀ title generated,
        List.Forall₂ (SeriesSummary.Portrays ranks)
          (Analysis.ofReport title generated report).series
          (c.groups.map ChartSeries.ofGroup)) ∧
    ∀ chart ∈ c.groups.map ChartSeries.ofGroup, chart.IsSampled := by
  constructor
  · intro htrust ranks report hreport title generated
    exact Collection.portrays_of_summarize htrust hreport title generated
  · intro chart hchart
    obtain ⟨g, hg, rfl⟩ := List.mem_map.1 hchart
    apply ChartSeries.isSampled_of_subperm
    exact h.values_subperm_samples g hg

/-- Runs on two days with a day missing between them, the later one first. -/
theorem exports_agree_gap_day :
    let steps : List (Feed Date) := [
      .daily ⟨"27", Date.atClock ⟨2016, 3, 1, by decide⟩ 9 0 0⟩ "r, a, 4\nr, b, 2\nr, c, 4\n",
      .daily ⟨"27", Date.atClock ⟨2016, 2, 28, by decide⟩ 20 0 0⟩ "r, a, 3\n"]
    let c := (after .comma .standard steps).finishContiguous
    let charts := c.groups.map ChartSeries.ofGroup
    charts.map (fun chart => (chart.label, chart.samples)) = [("2016-02-28", [.ofNat 3]),
      ("2016-02-29", []), ("2016-03-01", [.ofNat 4, .ofNat 2, .ofNat 4])] ∧
    (∃ report, c.summarize [.ofNat 95, .zero true] = .ok report ∧
      ∀ title generated, List.Forall₂ (SeriesSummary.Portrays [.ofNat 95, .zero true])
        (Analysis.ofReport title generated report).series charts) ∧
    ∀ chart ∈ charts, chart.IsSampled := by
  intro steps c charts
  obtain ⟨hseries, hsampled⟩ := exports_agree (Finishes.daily (after .comma .standard steps))
  have htrust : c.isTrustworthy = true := by decide +kernel
  obtain ⟨report, hreport⟩ : ∃ report, c.summarize [.ofNat 95, .zero true] = .ok report :=
    c.exists_summarize (by decide +kernel)
  exact ⟨by decide +kernel, ⟨report, hreport, hseries htrust _ _ hreport⟩, hsampled⟩

end Session

end Throughput
