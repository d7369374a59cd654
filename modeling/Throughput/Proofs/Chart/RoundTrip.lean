/-
  Throughput/Proofs/Chart/RoundTrip.lean
  ======================================
  **Charts are read back.**  Series for charting are read from their file as they were
  written (`series_of_written`), any number of them, with times of every year, labels
  of any characters and points or none.  The one field that a record may lack is that
  of its points: it is missing from the text exactly where there are none
  (`hasEntry_ofChartSeries`), and missing points are read as none.
-/
import Throughput.Proofs.Analysis.Acceptance

namespace Throughput

namespace Json

/-! ### Points -/

theorem timedSample?_ofTimedSample {p : TimedSample} (hvalue : Exact p.value)
    (hclock : p.time.nano < nanosPerSecond ∨ p.time.second = 59) :
    timedSample? (ofTimedSample p) = some p := by
  have htime : time? (ofString (String.ofList p.time.iso)) = some p.time := by
    rw [time?, text?_ofString, Option.bind_eq_bind, Option.bind_some, String.toList_ofList]
    exact Stamp.ofText?_iso hclock
  rw [timedSample?, ofTimedSample, slots?_record (by rfl) (by decide)]
  simp only [List.map_cons, List.map_nil, Option.bind_eq_bind, Option.bind_some, htime,
    hvalue.binary64?_ofBinary64]
  rfl

/-! ### Series -/

section Series

variable {s : ChartSeries} (hquantities : ∀ x ∈ s.quantities, Exact x)
include hquantities

theorem list?_ofSamples : list? binary64? (ofList ofBinary64 s.samples) = some s.samples :=
  list?_ofList fun x hx => (hquantities x (List.mem_append_left _ hx)).binary64?_ofBinary64

/-- Points are read as they are, also where they are missing. -/
theorem list?_ofPoints
    (hclock : ∀ p ∈ s.points, p.time.nano < nanosPerSecond ∨ p.time.second = 59) :
    list? timedSample? (Option.getD
      (if s.points.isEmpty then none else some (ofList ofTimedSample s.points)) (array [])) =
      some s.points := by
  have hread : list? timedSample? (ofList ofTimedSample s.points) = some s.points := by
    apply list?_ofList
    intro p hp
    have hvalue : p.value ∈ s.quantities :=
      List.mem_append_right _ (List.mem_map_of_mem hp)
    exact timedSample?_ofTimedSample (hquantities _ hvalue) (hclock p hp)
  cases hpoints : s.points with
  | nil => rfl
  | cons first rest =>
    rw [hpoints] at hread
    exact hread

theorem chartSeries?_ofChartSeries
    (hclock : ∀ p ∈ s.points, p.time.nano < nanosPerSecond ∨ p.time.second = 59) :
    chartSeries? (ofChartSeries s) = some s := by
  rw [chartSeries?, slots?_ofChartSeries]
  simp only [Option.bind_eq_bind, Option.bind_some, metric?_ofString, text?_ofString,
    list?_ofSamples hquantities, list?_ofPoints hquantities hclock]
  rfl

end Series

/-! ### Fields that are there -/

/-- Whether an object has an entry under a name. -/
def hasEntry (name : String) : Json → Bool
  | object entries => entries.any fun entry => entry.1 = some name
  | _ => false

/-- The points of a series are left out exactly if it has none. -/
theorem hasEntry_ofChartSeries (s : ChartSeries) :
    hasEntry "points" (ofChartSeries s) = !s.points.isEmpty := by
  rw [ofChartSeries, record_eq, hasEntry]
  cases s.points.isEmpty <;> rfl

end Json

/-! ### Files -/

namespace ChartSeries

theorem ofText?_fileText (series : List ChartSeries) :
    Json.ofText? (fileText series).toList = some (Json.ofList Json.ofChartSeries series) :=
  Json.ofText?_prettyText (Json.legible_ofList fun s _ => Json.legible_ofChartSeries s)

/-- **Series are read from the file they were written to.**  Their times are times of a
    clock, and the tokens of their quantities are each read back for themselves; a device
    under the path keeps nothing to read.  In the text, each series stands with its
    points, or without that field if it has none. -/
theorem series_of_written {series : List ChartSeries}
    (hfinite : ∀ s ∈ series, ∀ x ∈ s.quantities, x.isFinite = true)
    (htokens : ∀ s ∈ series, ∀ x ∈ s.quantities,
      Json.binary64? (.number x.scientific.toList) = some x)
    (hclock : ∀ s ∈ series, ∀ p ∈ s.points,
      p.time.nano < nanosPerSecond ∨ p.time.second = 59)
    {w after : World} {path : Path}
    (hwritten : Effect.performAll w (Effect.writeBelow path (fileText series)) = (.ok (), after))
    (hfile : after.tree.isFile path = true) :
    ofFile? after.tree.read path = some series ∧
    ∃ items, Json.ofText? (fileText series).toList = some (.array items) ∧
      List.Forall₂ (fun s item => Json.hasEntry "points" item = !s.points.isEmpty) series items := by
  constructor
  · have hread : Json.list? Json.chartSeries? (Json.ofList Json.ofChartSeries series) =
        some series := by
      apply Json.list?_ofList
      intro s hs
      exact Json.chartSeries?_ofChartSeries (fun x hx => ⟨hfinite s hs x hx, htokens s hs x hx⟩)
        (hclock s hs)
    have hopened : after.tree.read.opened path = .ok ⟨textBytes (fileText series), none⟩ :=
      Effect.opened_of_writeBelow hwritten hfile
    rw [ofFile?, hopened]
    simp only [textBytes, Text.utf8?_encodeUtf8, Option.bind_some, String.ofList_toList,
      ofFileText?, ofText?_fileText, hread]
  · refine ⟨_, ofText?_fileText series, ?_⟩
    rw [List.forall₂_map_right_iff]
    exact List.forall₂_same.2 fun s _ => Json.hasEntry_ofChartSeries s

/-- Two series with points long before and after our time, under labels with escapes,
    and a gap; the directory has to be made. -/
theorem series_of_written_old_and_far :
    let third : Binary64 := .ofUnits false Binary64.unitsPerOne 3
    let series : List ChartSeries := [
      ⟨.read, "MB/s", "\"r\" \\ \x01\t\u00e9", [third, .zero true],
        [⟨Date.atClock ⟨-44, 3, 15, by decide⟩ 23 59 59, third⟩,
          ⟨Date.atClock ⟨12345, 2, 28, by decide⟩ 23 59 59, .zero true⟩]⟩,
      ⟨.write, "", "", [], []⟩,
      ⟨.bandwidth, "Mbit/s", "2015-09-12", [.ofNat (10 ^ 17)], []⟩]
    let path : Path := ⟨"charts/series.json"⟩
    let written := Effect.performAll ⟨⟨[], []⟩, ""⟩ (Effect.writeBelow path (fileText series))
    written.1 = .ok () ∧ ofFile? written.2.tree.read path = some series ∧
      ∃ items, Json.ofText? (fileText series).toList = some (.array items) ∧
        items.map (Json.hasEntry "points") = [true, false, false] := by
  intro third series path written
  have hdone : written.1 = .ok () := by decide +kernel
  have hfile : written.2.tree.isFile path = true := by decide +kernel
  have hwritten : Effect.performAll ⟨⟨[], []⟩, ""⟩ (Effect.writeBelow path (fileText series)) =
      (.ok (), written.2) := Prod.ext hdone rfl
  obtain ⟨hread, items, hitems, hfields⟩ := series_of_written (by decide +kernel)
    (by decide +kernel) (by decide +kernel) hwritten hfile
  have hentries : items.map (Json.hasEntry "points") = series.map fun s => !s.points.isEmpty := by
    rw [← List.forall₂_eq_eq_eq, List.forall₂_map_left_iff, List.forall₂_map_right_iff]
    exact hfields.flip
  exact ⟨hdone, hread, items, hitems, hentries⟩

end ChartSeries

end Throughput
