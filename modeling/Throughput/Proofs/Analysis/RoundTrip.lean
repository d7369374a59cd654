/-
  Throughput/Proofs/Analysis/RoundTrip.lean
  =========================================
  **Analysis files are read back.**  An analysis whose quantities are all finite
  is read from its file as it was written (`Analysis.ofFile?_of_written`),
  whatever characters its texts are made of and whatever it has or lacks.  Each
  record of the file has its lemma; what the numbers and the time contribute is
  that each of them is read back for itself.
-/
import Throughput.Proofs.Calendar.Written
import Throughput.Proofs.Json.Records
import Throughput.Proofs.Storage.Writing
import Throughput.Proofs.Text.Encoding

namespace Throughput

/-! ### The numbers in an analysis -/

def Statistics.quantities (s : Statistics Binary64) : List Binary64 :=
  [s.least, s.greatest, s.mean, s.median, s.deviation] ++
    s.percentiles.flatMap fun p => [p.rank, p.value]

namespace SeriesSummary

def quantities (s : SeriesSummary) : List Binary64 :=
  (s.statistics.map Statistics.quantities).getD []

def counts (s : SeriesSummary) : List Nat := s.count :: (s.statistics.map (·.count)).toList

end SeriesSummary

namespace Analysis

/-- Every quantity in an analysis. -/
def quantities (a : Analysis) : List Binary64 := a.series.flatMap SeriesSummary.quantities

/-- Every count in an analysis. -/
def counts (a : Analysis) : List Nat := a.readings :: a.series.flatMap SeriesSummary.counts

end Analysis

namespace Json

/-! ### Quantities -/

/-- A quantity that is finite and whose token is read as that quantity. -/
structure Exact (x : Binary64) : Prop where
  isFinite : x.isFinite = true
  readsBack : binary64? (.number x.scientific.toList) = some x

theorem Exact.binary64?_ofBinary64 {x : Binary64} (h : Exact x) :
    binary64? (ofBinary64 x) = some x := by
  rw [ofBinary64, if_pos h.isFinite, h.readsBack]

/-! ### Records -/

theorem percentile?_ofPercentile {p : Percentile Binary64} (hrank : Exact p.rank)
    (hvalue : Exact p.value) : percentile? (ofPercentile p) = some p := by
  rw [percentile?, ofPercentile, slots?_record (by rfl) (by decide)]
  simp only [List.map_cons, List.map_nil, Option.bind_eq_bind, Option.bind_some,
    hrank.binary64?_ofBinary64, hvalue.binary64?_ofBinary64]
  rfl

theorem legible_ofPercentile (p : Percentile Binary64) : Legible (ofPercentile p) := by
  refine legible_record ?_
  simp only [List.forall_mem_cons]
  exact ⟨legible_ofBinary64 _, legible_ofBinary64 _, List.forall_mem_nil _⟩

section Statistics

variable {s : Statistics Binary64}

theorem exact_fields (h : ∀ x ∈ s.quantities, Exact x) :
    Exact s.least ∧ Exact s.greatest ∧ Exact s.mean ∧ Exact s.median ∧ Exact s.deviation := by
  have hfields : ∀ x ∈ [s.least, s.greatest, s.mean, s.median, s.deviation], Exact x :=
    fun x hx => h x (List.mem_append_left _ hx)
  simp only [List.forall_mem_cons] at hfields
  obtain ⟨hleast, hgreatest, hmean, hmedian, hdeviation, -⟩ := hfields
  exact ⟨hleast, hgreatest, hmean, hmedian, hdeviation⟩

theorem exact_percentiles (h : ∀ x ∈ s.quantities, Exact x) :
    ∀ p ∈ s.percentiles, Exact p.rank ∧ Exact p.value := by
  intro p hp
  have hmem : ∀ x ∈ [p.rank, p.value], Exact x := fun x hx =>
    h x (List.mem_append_right _ (List.mem_flatMap.2 ⟨p, hp, hx⟩))
  exact ⟨hmem _ (by simp), hmem _ (by simp)⟩

theorem statistics?_ofStatistics (hcount : Word.fits 64 s.count = true)
    (h : ∀ x ∈ s.quantities, Exact x) : statistics? (ofStatistics s) = some s := by
  obtain ⟨hleast, hgreatest, hmean, hmedian, hdeviation⟩ := exact_fields h
  have hpercentiles : list? percentile? (ofList ofPercentile s.percentiles) =
      some s.percentiles := list?_ofList fun p hp =>
    percentile?_ofPercentile (exact_percentiles h p hp).1 (exact_percentiles h p hp).2
  rw [statistics?, ofStatistics, slots?_record (by rfl) (by decide)]
  simp only [List.map_cons, List.map_nil, Option.bind_eq_bind, Option.bind_some,
    nat?_ofNat hcount, hleast.binary64?_ofBinary64, hgreatest.binary64?_ofBinary64,
    hmean.binary64?_ofBinary64, hmedian.binary64?_ofBinary64,
    hdeviation.binary64?_ofBinary64, hpercentiles]
  rfl

end Statistics

theorem legible_ofStatistics (s : Statistics Binary64) : Legible (ofStatistics s) := by
  have hpercentiles : Legible (ofList ofPercentile s.percentiles) := legible_ofList fun p _ =>
    legible_ofPercentile p
  refine legible_record ?_
  simp only [List.forall_mem_cons]
  exact ⟨legible_ofNat _, legible_ofBinary64 _, legible_ofBinary64 _, legible_ofBinary64 _,
    legible_ofBinary64 _, legible_ofBinary64 _, hpercentiles, List.forall_mem_nil _⟩

theorem metric?_ofString (m : Metric) : metric? (ofString m.name) = some m := by
  cases m <;> rfl

section Series

variable {s : SeriesSummary} (hquantities : ∀ x ∈ s.quantities, Exact x)
include hquantities

theorem exact_statistics {t : Statistics Binary64} (ht : t ∈ s.statistics) :
    ∀ x ∈ t.quantities, Exact x := by
  intro x hx
  refine hquantities x ?_
  rw [SeriesSummary.quantities, Option.mem_def.1 ht]
  exact hx

theorem seriesSummary?_ofSeriesSummary (hcounts : ∀ n ∈ s.counts, Word.fits 64 n = true) :
    seriesSummary? (ofSeriesSummary s) = some s := by
  have hcount : Word.fits 64 s.count = true := hcounts _ (by simp [SeriesSummary.counts])
  have hstatistics : option? statistics? (ofOption ofStatistics s.statistics) =
      some s.statistics := by
    refine option?_ofOption (fun _ => record_ne_null) fun t ht => ?_
    refine statistics?_ofStatistics (hcounts _ ?_) (exact_statistics hquantities ht)
    simp [SeriesSummary.counts, Option.mem_def.1 ht]
  rw [seriesSummary?, ofSeriesSummary, slots?_record (by rfl) (by decide)]
  simp only [List.map_cons, List.map_nil, Option.bind_eq_bind, Option.bind_some,
    metric?_ofString, text?_ofString, nat?_ofNat hcount, Option.getD_some, hstatistics]
  rfl

end Series

theorem legible_ofSeriesSummary (s : SeriesSummary) : Legible (ofSeriesSummary s) := by
  have hstatistics : Legible (ofOption ofStatistics s.statistics) := legible_ofOption fun t _ =>
    legible_ofStatistics t
  refine legible_record ?_
  simp only [List.forall_mem_cons]
  exact ⟨legible_ofString _, legible_ofString _, legible_ofString _, legible_ofNat _,
    hstatistics, List.forall_mem_nil _⟩

/-! ### Analyses -/

theorem list?_ofFields (readings : List (List String)) :
    list? (list? text?) (ofFields readings) = some readings :=
  list?_ofList fun _ _ => list?_ofList fun _ _ => text?_ofString _

theorem legible_ofFields (readings : List (List String)) : Legible (ofFields readings) :=
  legible_ofList fun _ _ => legible_ofList fun _ _ => legible_ofString _

section Analysis

variable {a : Analysis} (hquantities : ∀ x ∈ a.quantities, Exact x)
include hquantities

theorem exact_series {s : SeriesSummary} (hs : s ∈ a.series) : ∀ x ∈ s.quantities, Exact x :=
  fun x hx => hquantities x (List.mem_flatMap.2 ⟨s, hs, hx⟩)

theorem analysis?_ofAnalysis (hcounts : ∀ n ∈ a.counts, Word.fits 64 n = true)
    (htime : Stamp.ofZonedText? (a.generated.iso ++ ['Z']) = some a.generated) :
    analysis? (ofAnalysis a) = some a := by
  have hreadings : Word.fits 64 a.readings = true := hcounts _ (List.mem_cons_self ..)
  have hseries : list? seriesSummary? (ofList ofSeriesSummary a.series) = some a.series :=
    list?_ofList fun s hs =>
      seriesSummary?_ofSeriesSummary (exact_series hquantities hs) fun n hn =>
        hcounts n (List.mem_cons_of_mem _ (List.mem_flatMap.2 ⟨s, hs, hn⟩))
  have hmoment : moment? (ofString (String.ofList (a.generated.iso ++ ['Z']))) =
      some a.generated := by
    rw [moment?, text?_ofString, Option.bind_eq_bind, Option.bind_some, String.toList_ofList, htime]
  rw [analysis?, ofAnalysis, slots?_record (by rfl) (by decide)]
  simp only [List.map_cons, List.map_nil, Option.bind_eq_bind, Option.bind_some,
    text?_ofString, nat?_ofNat hreadings, list?_ofFields, boolean?, hseries, hmoment]
  rfl

end Analysis

theorem legible_ofAnalysis (a : Analysis) : Legible (ofAnalysis a) := by
  have hseries : Legible (ofList ofSeriesSummary a.series) := legible_ofList fun s _ =>
    legible_ofSeriesSummary s
  refine legible_record ?_
  simp only [List.forall_mem_cons]
  exact ⟨legible_ofString _, legible_ofNat _, legible_ofFields _, .boolean _, hseries,
    legible_ofString _, List.forall_mem_nil _⟩

end Json

namespace Analysis

/-- The text of an analysis is read as that analysis. -/
theorem ofFileText?_fileText {a : Analysis} (hquantities : ∀ x ∈ a.quantities, Json.Exact x)
    (hcounts : ∀ n ∈ a.counts, Word.fits 64 n = true)
    (htime : Stamp.ofZonedText? (a.generated.iso ++ ['Z']) = some a.generated) :
    ofFileText? a.fileText = some a := by
  rw [ofFileText?, fileText, Json.ofText?_prettyText (Json.legible_ofAnalysis a),
    Option.bind_some, Json.analysis?_ofAnalysis hquantities hcounts htime]

/-- **An analysis is read from the file it was written to.**  Its counts are words of
    64 bits, and the tokens of its quantities and its time are each read back for
    themselves; a device under the path keeps nothing to read. -/
theorem ofFile?_of_written {a : Analysis} (hfinite : ∀ x ∈ a.quantities, x.isFinite = true)
    (hcounts : ∀ n ∈ a.counts, Word.fits 64 n = true)
    (htokens : ∀ x ∈ a.quantities, Json.binary64? (.number x.scientific.toList) = some x)
    (htime : Stamp.ofZonedText? (a.generated.iso ++ ['Z']) = some a.generated)
    {w after : World} {p : Path}
    (hwritten : Effect.performAll w (Effect.writeBelow p a.fileText) = (.ok (), after))
    (hfile : after.tree.isFile p = true) :
    ofFile? after.tree.read p = some a := by
  have htext : ofFileText? a.fileText = some a :=
    ofFileText?_fileText (fun x hx => ⟨hfinite x hx, htokens x hx⟩) hcounts htime
  have hopened : after.tree.read.opened p = .ok ⟨textBytes a.fileText, none⟩ :=
    Effect.opened_of_writeBelow hwritten hfile
  rw [ofFile?, hopened]
  simp only [textBytes, Text.utf8?_encodeUtf8, Option.bind_some, String.ofList_toList, htext]

/-- An analysis of a series with statistics and of a gap, made in a leap second,
    whose directory has to be made. -/
theorem ofFile?_of_written_gap :
    let third : Binary64 := .ofUnits false Binary64.unitsPerOne 3
    let a : Analysis := {
      title := "\"disk\" \\ \x01\t\u00e9"
      readings := 3
      unrecognized := [["r", "", "\n"], []]
      withheld := false
      series := [
        ⟨.read, "MB/s", "2015-08-31", 2,
          some ⟨2, .zero true, .ofNat 1, third, third, .ofNat (10 ^ 17),
            [⟨.ofNat 95, third.neg⟩, ⟨.ofNat 5, .zero false⟩]⟩⟩,
        ⟨.write, "MB/s", "", 0, none⟩]
      generated := ⟨⟨2015, 6, 30, by decide⟩, 23, 59, 59, 1500000000, by decide, by decide,
        by decide, by decide⟩ }
    let p : Path := ⟨"out/disk.json"⟩
    let written := Effect.performAll ⟨⟨[], []⟩, ""⟩ (Effect.writeBelow p a.fileText)
    written.1 = .ok () ∧ ofFile? written.2.tree.read p = some a := by
  intro third a p written
  have hdone : written.1 = .ok () := by decide +kernel
  have hfile : written.2.tree.isFile p = true := by decide +kernel
  have htime : Stamp.ofZonedText? (a.generated.iso ++ ['Z']) = some a.generated :=
    Stamp.ofZonedText?_iso (.inr rfl)
  exact ⟨hdone, ofFile?_of_written (by decide +kernel) (by decide +kernel) (by decide +kernel)
    htime (Prod.ext hdone rfl) hfile⟩

end Analysis

end Throughput
