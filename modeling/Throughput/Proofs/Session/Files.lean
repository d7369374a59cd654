/-
  Throughput/Proofs/Session/Files.lean
  ====================================
  **Which results come back from their files.**  Whatever logs a session took in, and
  whatever failed on the way, the analysis of its report is read from its file exactly
  if all quantities of the report are finite, and its series for charting exactly if all
  samples are (`files_read_iff_finite`).  Counts need nothing but a session of fewer
  readings than a word holds: no series counts more than the session does.

  A reading may say `nan` or `inf`, and the sum of finite samples may run over, so
  there are sessions whose results do not come back (`files_not_read_nan_or_overflow`).
-/
import Mathlib.Algebra.Order.BigOperators.Group.List
import Throughput.Proofs.Analysis.Acceptance
import Throughput.Proofs.Session.Accounting
import Throughput.Proofs.Session.Finishing

namespace Throughput

/-! ### The numbers in a report -/

/-- Every quantity in a report. -/
def Report.quantities {κ : Type} (r : Report κ) : List Binary64 :=
  r.series.flatMap fun summary => (summary.statistics.map Statistics.quantities).getD []

theorem Analysis.quantities_ofReport {κ : Type} [SeriesKey κ] (title : String) (generated : Stamp)
    (r : Report κ) : (ofReport title generated r).quantities = r.quantities := by
  rw [quantities, ofReport, List.flatMap_map]
  rfl

/-! ### Collections -/

namespace Collection

variable {κ : Type} [SeriesKey κ] {c : Collection κ}

/-- What readers make of the files of a collection. -/
structure ReadWhenFinite (c : Collection κ) : Prop where
  analysis : ∀ ranks report, c.summarize ranks = .ok report → ∀ title generated,
    ((Analysis.ofFileText? (Analysis.ofReport title generated report).fileText).isSome = true ↔
      Word.fits 64 c.readings = true ∧ ∀ x ∈ report.quantities, x.isFinite = true)
  chart : (ChartSeries.ofFileText?
      (ChartSeries.fileText (c.groups.map ChartSeries.ofGroup))).isSome = true ↔
    ∀ g ∈ c.groups, ∀ x ∈ g.samples, x.isFinite = true

theorem ReadWhenFinite.ofFileText?_eq_none (h : c.ReadWhenFinite) {ranks : List Binary64}
    {report : Report κ} (hreport : c.summarize ranks = .ok report)
    (hquantity : ∃ x ∈ report.quantities, x.isFinite = false) (title : String) (generated : Stamp) :
    Analysis.ofFileText? (Analysis.ofReport title generated report).fileText = none := by
  obtain ⟨x, hx, hinfinite⟩ := hquantity
  refine Option.not_isSome_iff_eq_none.1 fun hsome => ?_
  have hfinite := ((h.analysis ranks report hreport title generated).1 hsome).2 x hx
  rw [hinfinite] at hfinite
  cases hfinite

/-- No count in a report exceeds the readings of its collection. -/
theorem le_readings_of_mem_counts
    (hreadings : c.readings = (c.groups.map Group.count).sum + c.unrecognized.length)
    {ranks : List Binary64} {report : Report κ} (h : c.summarize ranks = .ok report)
    (title : String) (generated : Stamp) :
    ∀ n ∈ (Analysis.ofReport title generated report).counts, n ≤ c.readings := by
  intro n hn
  rcases List.mem_cons.1 hn with rfl | hn
  · exact (readings_of_summarize h).le
  obtain ⟨series, hseries, hn⟩ := List.mem_flatMap.1 hn
  obtain ⟨summary, hsummary, rfl⟩ := List.mem_map.1 hseries
  obtain ⟨-, g, hg, hsummarize⟩ := exists_group_of_summarize h hsummary
  have hcount : g.count ≤ c.readings := by
    have hmem : g.count ∈ c.groups.map Group.count := List.mem_map.2 ⟨g, hg, rfl⟩
    have hle := List.le_sum_of_mem hmem
    omega
  rcases List.mem_cons.1 hn with rfl | hn
  · exact (Group.count_of_summarize hsummarize).le.trans hcount
  · obtain ⟨t, ht, rfl⟩ := Option.map_eq_some_iff.1 (Option.mem_toList.1 hn)
    exact (Group.count_of_mem_statistics hsummarize ht).le.trans hcount

/-- The files of a collection that counts its readings and whose points are samples. -/
theorem readWhenFinite_of_readings_eq
    (hreadings : c.readings = (c.groups.map Group.count).sum + c.unrecognized.length)
    (hpoints : ∀ g ∈ c.groups, ∀ p ∈ g.points, p.value ∈ g.samples) : c.ReadWhenFinite where
  analysis ranks report hreport title generated := by
    rw [Analysis.isSome_ofFileText?_fileText, Analysis.quantities_ofReport]
    refine and_congr_left fun _ => ⟨fun hcounts => ?_, fun hfits n hn => ?_⟩
    · have hself := hcounts report.readings List.mem_cons_self
      rwa [readings_of_summarize hreport] at hself
    · have hle := le_readings_of_mem_counts hreadings hreport title generated n hn
      exact decide_eq_true (Nat.lt_of_le_of_lt hle (of_decide_eq_true hfits))
  chart := by
    rw [ChartSeries.isSome_ofFileText?_fileText, List.forall_mem_map]
    refine forall₂_congr fun g hg => ?_
    rw [ChartSeries.quantities, ChartSeries.ofGroup, List.forall_mem_append, List.forall_mem_map]
    exact and_iff_left_of_imp fun hsamples p hp => hsamples _ (hpoints g hg p hp)

end Collection

/-! ### Sessions -/

namespace Session

section

variable {κ : Type} [SeriesKey κ] (d : Delimiter) (rule : BandwidthRule)

theorem readWhenFinite_finish (steps : List (Feed κ)) :
    (after d rule steps).finish.ReadWhenFinite := by
  classical
  have haccounted := accounted_after d rule steps
  refine Collection.readWhenFinite_of_readings_eq ?_ fun g hg p hp =>
    (isGrouping_after d rule steps).value_mem_samples hg hp
  simp only [finish, Collector.sum_count_finish, Array.length_toList]
  exact haccounted.readings_eq

theorem readWhenFinite_finishContiguous (steps : List (Feed Date)) :
    (after d rule steps).finishContiguous.ReadWhenFinite := by
  have haccounted := accounted_after d rule steps
  refine Collection.readWhenFinite_of_readings_eq ?_ fun g hg p hp =>
    (isArrangement_after_daily d rule steps).value_mem_samples hg hp
  simp only [finishContiguous, Collector.sum_count_finishContiguous, Array.length_toList]
  exact haccounted.readings_eq

end

/-- **Results come back exactly if they are finite.**  After any steps, with daily gaps
    filled or not, the analysis of a report for any ranks is read from its file exactly
    if its quantities are finite, and the series for charting exactly if the samples
    are; a count of readings beyond a word stops the analysis as well. -/
theorem files_read_iff_finite (d : Delimiter) (rule : BandwidthRule) :
    (∀ {κ : Type} [SeriesKey κ] (steps : List (Feed κ)),
      (after d rule steps).finish.ReadWhenFinite) ∧
    ∀ steps : List (Feed Date), (after d rule steps).finishContiguous.ReadWhenFinite :=
  ⟨fun steps => readWhenFinite_finish d rule steps,
    fun steps => readWhenFinite_finishContiguous d rule steps⟩

/-- The least number and one near the greatest, with a time and without. -/
theorem files_read_iff_finite_extremes :
    let start := Date.atClock ⟨2015, 8, 31, by decide⟩ 11 45 24
    let steps : List (Feed Unit) := [
      .disk (fun _ => ()) (.ofText "r, a, 5e-324\nsetup\n"),
      .run ⟨"27", start⟩ (fun _ => ()) (.ofText "w, b, 1.7e308\n")]
    let c := (after .comma .standard steps).finish
    (∃ report, c.summarize [.ofNat 50, .ofNat 95] = .ok report ∧
      (Analysis.ofFileText? (Analysis.ofReport "disk" start report).fileText).isSome = true) ∧
    (ChartSeries.ofFileText? (ChartSeries.fileText (c.groups.map ChartSeries.ofGroup))).isSome =
      true := by
  intro start steps c
  have hread : c.ReadWhenFinite := (files_read_iff_finite .comma .standard).1 steps
  have hfits : Word.fits 64 c.readings = true := by decide +kernel
  have hsamples : ∀ g ∈ c.groups, ∀ x ∈ g.samples, x.isFinite = true := by decide +kernel
  have hsummary : (c.summarize [.ofNat 50, .ofNat 95]).toOption.any
      (fun report => decide (∀ x ∈ report.quantities, x.isFinite = true)) = true := by
    decide +kernel
  obtain ⟨report, hreport, hfinite⟩ := Collection.exists_report_of_any hsummary
  exact ⟨⟨report, hreport, (hread.analysis _ _ hreport _ _).2 ⟨hfits, of_decide_eq_true hfinite⟩⟩,
    hread.chart.2 hsamples⟩

/-- The number nearest to `10 ^ 308`. -/
def nearGreatest : Binary64 := .ofNat (10 ^ 308)

/-- The statistics of two samples whose sum is beyond the greatest number. -/
def overflown : Statistics Binary64 :=
  ⟨2, nearGreatest, nearGreatest, .infinity false, nearGreatest, .infinity false, []⟩

theorem ofSamples_nearGreatest :
    Statistics.ofSamples [nearGreatest, nearGreatest] [] = .ok overflown := by
  have hsorted : Samples.sorted [nearGreatest, nearGreatest] = [nearGreatest, nearGreatest] :=
    List.mergeSort_of_pairwise (by decide +kernel)
  rw [Statistics.ofSamples, Ascending.ofSamples, hsorted]
  decide +kernel

/-- A reading that says `nan`, and two readings whose sum runs over: neither analysis is
    read from its file, and of the two charts only the second one. -/
theorem files_not_read_nan_or_overflow :
    let start := Date.atClock ⟨1970, 1, 1, by decide⟩ 0 0 0
    let session (log : String) : Collection Unit := (after .comma .standard
      [.disk (fun _ => ()) (.ofText log)]).finish
    let undefined := session "r, a, nan\n"
    let overflowing := session "r, a, 1e308\nr, b, 1e308\n"
    ((∃ report, undefined.summarize [] = .ok report ∧
        Analysis.ofFileText? (Analysis.ofReport "session" start report).fileText = none) ∧
      ChartSeries.ofFileText? (ChartSeries.fileText (undefined.groups.map ChartSeries.ofGroup)) =
        none) ∧
    (∃ report, overflowing.summarize [] = .ok report ∧
        Analysis.ofFileText? (Analysis.ofReport "session" start report).fileText = none) ∧
      (ChartSeries.ofFileText?
        (ChartSeries.fileText (overflowing.groups.map ChartSeries.ofGroup))).isSome = true := by
  intro start session undefined overflowing
  have hread : ∀ log, (session log).ReadWhenFinite := fun log =>
    readWhenFinite_finish .comma .standard _
  have hundefined : (undefined.summarize []).toOption.any
      (fun report => decide (∃ x ∈ report.quantities, x.isFinite = false)) = true := by
    decide +kernel
  have hchart : ¬∀ g ∈ undefined.groups, ∀ x ∈ g.samples, x.isFinite = true := by decide +kernel
  obtain ⟨report, hreport, hinfinite⟩ := Collection.exists_report_of_any hundefined
  have hoverflow : overflowing.summarize [] =
      .ok ⟨2, [], false, [⟨.read, (), 2, some overflown⟩]⟩ := by
    have hgroup : Group.summarize [] (⟨.read, (), [nearGreatest, nearGreatest], []⟩ : Group Unit) =
        .ok ⟨.read, (), 2, some overflown⟩ := by
      rw [Group.summarize, ofSamples_nearGreatest]
      rfl
    have htrust : overflowing.isTrustworthy = true := by decide +kernel
    have hreadings : overflowing.readings = 2 := by decide +kernel
    have hunrecognized : overflowing.unrecognized = [] := List.isEmpty_iff.1 htrust
    have hgroups : overflowing.groups = [⟨.read, (), [nearGreatest, nearGreatest], []⟩] := by
      decide +kernel
    rw [Collection.summarize, if_pos htrust, hgroups, mapM_cons_of_ok hgroup, hreadings,
      hunrecognized]
    rfl
  refine ⟨⟨⟨report, hreport, ?_⟩, ?_⟩, ⟨_, hoverflow, ?_⟩, ?_⟩
  · exact (hread _).ofFileText?_eq_none hreport (of_decide_eq_true hinfinite) _ _
  · exact Option.not_isSome_iff_eq_none.1 fun hsome => hchart ((hread _).chart.1 hsome)
  · have hquantity : ∃ x ∈ [overflown].flatMap Statistics.quantities, x.isFinite = false :=
      ⟨.infinity false, by decide +kernel, by decide⟩
    exact (hread _).ofFileText?_eq_none hoverflow hquantity _ _
  · exact (hread _).chart.2 (by decide +kernel)

end Session

end Throughput
