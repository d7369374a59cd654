/-
  Throughput/Proofs/Analysis/Acceptance.lean
  ==========================================
  **Which files are read at all.**  JSON has no number for what is not finite, so
  `null` stands in its place, and no quantity is read from that.  The text of an
  analysis whose counts are words is read exactly if its quantities are finite
  (`Analysis.isSome_ofFileText?_fileText`), and the text of series for charting exactly
  if their samples and points are (`ChartSeries.isSome_ofFileText?_fileText`); titles,
  labels, fields and times never stand in the way.
-/
import Throughput.Chart
import Throughput.Proofs.Analysis.RoundTrip
import Throughput.Proofs.Json.Quantities

namespace Throughput

/-- Every quantity of a series for charting. -/
def ChartSeries.quantities (s : ChartSeries) : List Binary64 :=
  s.samples ++ s.points.map (·.value)

namespace Json

/-! ### Fields read one after another -/

theorem any_const {α : Type} (x : Option α) (b : Bool) : x.any (fun _ => b) = (x.isSome && b) := by
  cases x <;> rfl

/-! ### Records of an analysis -/

theorem isSome_percentile?_ofPercentile (p : Percentile Binary64) :
    (percentile? (ofPercentile p)).isSome = true ↔
      p.rank.isFinite = true ∧ p.value.isFinite = true := by
  rw [percentile?, ofPercentile, slots?_record (by rfl) (by decide)]
  simp only [List.map_cons, List.map_nil, Option.bind_eq_bind, Option.bind_some, Option.pure_def,
    Option.isSome_bind, Option.isSome_some, any_const, isSome_binary64?_ofBinary64,
    Bool.and_true, Bool.and_eq_true]

theorem isSome_statistics?_ofStatistics (s : Statistics Binary64) :
    (statistics? (ofStatistics s)).isSome = true ↔
      Word.fits 64 s.count = true ∧ ∀ x ∈ s.quantities, x.isFinite = true := by
  rw [statistics?, ofStatistics, slots?_record (by rfl) (by decide)]
  simp only [List.map_cons, List.map_nil, Option.bind_eq_bind, Option.bind_some, Option.pure_def,
    Option.isSome_bind, Option.isSome_some, any_const, isSome_binary64?_ofBinary64,
    isSome_nat?_ofNat, Bool.and_true, Bool.and_eq_true, isSome_list?_ofList,
    isSome_percentile?_ofPercentile]
  simp only [Statistics.quantities, List.forall_mem_append, List.forall_mem_cons,
    List.forall_mem_flatMap, List.not_mem_nil, false_imp_iff, implies_true, and_true, and_assoc]

theorem isSome_seriesSummary?_ofSeriesSummary (s : SeriesSummary) :
    (seriesSummary? (ofSeriesSummary s)).isSome = true ↔
      (∀ n ∈ s.counts, Word.fits 64 n = true) ∧ ∀ x ∈ s.quantities, x.isFinite = true := by
  have hstatistics : (option? statistics? (ofOption ofStatistics s.statistics)).isSome = true ↔
      ∀ t ∈ s.statistics, Word.fits 64 t.count = true ∧ ∀ x ∈ t.quantities, x.isFinite = true := by
    have hnull : ∀ t, ofStatistics t ≠ null := fun _ => record_ne_null
    rw [isSome_option?_ofOption hnull]
    simp only [isSome_statistics?_ofStatistics]
  rw [seriesSummary?, ofSeriesSummary, slots?_record (by rfl) (by decide)]
  simp only [List.map_cons, List.map_nil, Option.bind_eq_bind, Option.bind_some, Option.pure_def,
    Option.isSome_bind, Option.isSome_some, any_const, metric?_ofString, text?_ofString,
    isSome_nat?_ofNat, Option.getD_some, Bool.and_true, Bool.and_eq_true,
    hstatistics, SeriesSummary.counts, SeriesSummary.quantities, List.forall_mem_cons]
  cases s.statistics with
  | none => simp
  | some t => simp [and_assoc]

/-- What is read of an analysis does not depend on its texts and its time. -/
theorem isSome_analysis?_ofAnalysis (a : Analysis) :
    (analysis? (ofAnalysis a)).isSome = true ↔
      (∀ n ∈ a.counts, Word.fits 64 n = true) ∧ ∀ x ∈ a.quantities, x.isFinite = true := by
  have hmoment : (moment? (ofString (String.ofList (a.generated.iso ++ ['Z'])))).isSome = true := by
    rw [moment?, text?_ofString, Option.bind_eq_bind, Option.bind_some, String.toList_ofList]
    exact a.generated.isSome_ofZonedText?_iso
  rw [analysis?, ofAnalysis, slots?_record (by rfl) (by decide)]
  simp only [List.map_cons, List.map_nil, Option.bind_eq_bind, Option.bind_some, Option.pure_def,
    Option.isSome_bind, Option.isSome_some, any_const, text?_ofString, list?_ofFields, boolean?,
    isSome_nat?_ofNat, hmoment, Bool.and_true, Bool.and_eq_true,
    isSome_list?_ofList, isSome_seriesSummary?_ofSeriesSummary, Analysis.counts,
    Analysis.quantities, List.forall_mem_cons, List.forall_mem_flatMap, forall_and, and_assoc]

/-! ### Records of a chart -/

theorem isSome_timedSample?_ofTimedSample (p : TimedSample) :
    (timedSample? (ofTimedSample p)).isSome = p.value.isFinite := by
  have htime : (time? (ofString (String.ofList p.time.iso))).isSome = true := by
    rw [time?, text?_ofString, Option.bind_eq_bind, Option.bind_some, String.toList_ofList]
    exact p.time.isSome_ofText?_iso
  rw [timedSample?, ofTimedSample, slots?_record (by rfl) (by decide)]
  simp only [List.map_cons, List.map_nil, Option.bind_eq_bind, Option.bind_some, Option.pure_def,
    Option.isSome_bind, Option.isSome_some, any_const, htime, isSome_binary64?_ofBinary64,
    Bool.and_true, Bool.true_and]

theorem legible_ofTimedSample (p : TimedSample) : Legible (ofTimedSample p) := by
  refine legible_record ?_
  simp only [List.forall_mem_cons]
  exact ⟨legible_ofString _, legible_ofBinary64 _, List.forall_mem_nil _⟩

/-- Points that are left out are read as none. -/
theorem slots?_ofChartSeries (s : ChartSeries) :
    slots? ["metric", "unit", "key", "samples", "points"] 4 (ofChartSeries s) =
      some [some (ofString s.metric.name), some (ofString s.unit), some (ofString s.label),
        some (ofList ofBinary64 s.samples),
        if s.points.isEmpty then none else some (ofList ofTimedSample s.points)] := by
  rw [ofChartSeries]
  split
  · have hnodup : (["metric", "unit", "key", "samples"] ++ ["points"]).Nodup := by decide
    exact slots?_record_append (by rfl) hnodup 4
  · exact slots?_record (by rfl) (by decide) 4

theorem isSome_chartSeries?_ofChartSeries (s : ChartSeries) :
    (chartSeries? (ofChartSeries s)).isSome = true ↔ ∀ x ∈ s.quantities, x.isFinite = true := by
  have hpoints : (list? timedSample? (Option.getD
      (if s.points.isEmpty then none else some (ofList ofTimedSample s.points))
      (array []))).isSome = true ↔ ∀ p ∈ s.points, p.value.isFinite = true := by
    cases hp : s.points with
    | nil => simp [list?]
    | cons p rest =>
      simp only [List.isEmpty_cons, Bool.false_eq_true, if_false, Option.getD_some]
      rw [isSome_list?_ofList]
      simp only [isSome_timedSample?_ofTimedSample]
  rw [chartSeries?, slots?_ofChartSeries]
  simp only [Option.bind_eq_bind, Option.bind_some, Option.pure_def, Option.isSome_bind,
    Option.isSome_some, any_const, metric?_ofString, text?_ofString, Bool.and_true,
    Bool.and_eq_true, isSome_list?_ofList, isSome_binary64?_ofBinary64, hpoints,
    ChartSeries.quantities, List.forall_mem_append, List.forall_mem_map]

theorem legible_ofChartSeries (s : ChartSeries) : Legible (ofChartSeries s) := by
  have hsamples : Legible (ofList ofBinary64 s.samples) := legible_ofList fun x _ =>
    legible_ofBinary64 x
  have hpoints : Legible (ofList ofTimedSample s.points) := legible_ofList fun p _ =>
    legible_ofTimedSample p
  refine legible_record ?_
  rw [List.forall_mem_append]
  constructor
  · simp only [List.forall_mem_cons]
    exact ⟨legible_ofString _, legible_ofString _, legible_ofString _, hsamples,
      List.forall_mem_nil _⟩
  · split
    · exact List.forall_mem_nil _
    · exact List.forall_mem_cons.2 ⟨hpoints, List.forall_mem_nil _⟩

end Json

/-! ### Files -/

/-- **An analysis is read from its text exactly if its counts are words and its
    quantities are finite.** -/
theorem Analysis.isSome_ofFileText?_fileText (a : Analysis) :
    (ofFileText? a.fileText).isSome = true ↔
      (∀ n ∈ a.counts, Word.fits 64 n = true) ∧ ∀ x ∈ a.quantities, x.isFinite = true := by
  rw [ofFileText?, fileText, Json.ofText?_prettyText (Json.legible_ofAnalysis a), Option.bind_some,
    Json.isSome_analysis?_ofAnalysis]

/-- **Series for charting are read from their text exactly if their quantities are
    finite.** -/
theorem ChartSeries.isSome_ofFileText?_fileText (series : List ChartSeries) :
    (ofFileText? (fileText series)).isSome = true ↔
      ∀ s ∈ series, ∀ x ∈ s.quantities, x.isFinite = true := by
  have hlegible : (Json.ofList Json.ofChartSeries series).Legible := Json.legible_ofList fun s _ =>
    Json.legible_ofChartSeries s
  rw [ofFileText?, fileText, Json.ofText?_prettyText hlegible, Option.bind_some,
    Json.isSome_list?_ofList]
  simp only [Json.isSome_chartSeries?_ofChartSeries]

end Throughput
