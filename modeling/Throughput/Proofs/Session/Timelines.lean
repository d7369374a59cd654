/-
  Throughput/Proofs/Session/Timelines.lean
  ========================================
  **One set of runs, three timelines.**  The logs of runs can be taken in under
  the labels of their readings, the days or the times of the runs.  All three
  sessions observe the same measurements and differ in the keys alone
  (`collector_afterRuns`), so they count the same readings, hold the same
  samples of every metric, and a day holds the samples of its times
  (`timelines_agree`).
-/
import Throughput.Proofs.Report.Summaries
import Throughput.Proofs.Series.Unions
import Throughput.Proofs.Session.Findings

namespace Throughput

variable {κ : Type}

/-! ### Readings of runs -/

/-- A reading that was recognized, in the log of a run. -/
structure Measurement where
  taken : Run
  metric : Metric
  reading : Reading

namespace Measurement

def ofReading? (taken : Run) (r : Reading) : Option Measurement :=
  match r.verdict with
  | .measured operation => some ⟨taken, .ofOperation operation, r⟩
  | .unrecognized _ => none

/-- The sample of a measurement under the key that its run gives. -/
def observe (key : Run → Reading → κ) (m : Measurement) : Observation κ :=
  ⟨⟨m.metric, key m.taken m.reading⟩, some m.taken.start, m.reading.value⟩

end Measurement

/-- The readings in the logs of runs, each with its run. -/
def readingsOf (d : Delimiter) (runs : List (Run × List UInt8)) : List (Run × Reading) :=
  runs.flatMap fun (taken, bytes) => (Source.readings d ⟨bytes, none⟩).map (taken, ·)

def measurementsOf (d : Delimiter) (runs : List (Run × List UInt8)) : List Measurement :=
  (readingsOf d runs).filterMap fun (taken, r) => Measurement.ofReading? taken r

def unrecognizedOf (d : Delimiter) (runs : List (Run × List UInt8)) : List Reading :=
  ((readingsOf d runs).map (·.2)).filter fun r => !r.isRecognized

namespace Session

/-! ### Sessions of runs -/

section Runs

variable [SeriesKey κ] (d : Delimiter) (rule : BandwidthRule) (key : Run → Reading → κ)
  (runs : List (Run × List UInt8))

/-- The session that takes in the logs of runs. -/
def afterRuns : Session κ :=
  after d rule (runs.map fun (taken, bytes) => .run taken (key taken) ⟨bytes, none⟩)

theorem afterRuns_eq_noteAll : afterRuns d rule key runs = (start d rule).noteAll
    ((readingsOf d runs).map fun (taken, r) => .ofReading (some taken.start) (key taken) r) := by
  rw [afterRuns, after_eq_noteAll, List.flatMap_map, readingsOf, List.map_flatMap]
  simp only [Feed.findings, List.map_map]
  rfl

theorem readings_afterRuns : (afterRuns d rule key runs).readings = (readingsOf d runs).length := by
  rw [afterRuns_eq_noteAll, readings_noteAll, List.length_map]
  exact Nat.zero_add _

theorem unrecognized_afterRuns :
    (afterRuns d rule key runs).unrecognized.toList = unrecognizedOf d runs := by
  rw [afterRuns, unrecognized_after, unrecognizedOf, readingsOf, List.flatMap_map,
    List.map_flatMap]
  simp only [List.map_map, Feed.candidates]
  congr 1
  apply List.flatMap_congr
  intro (taken, bytes) _
  exact (List.map_id _).symm

theorem collector_afterRuns : (afterRuns d rule key runs).collector =
    Collector.empty.pushAll ((measurementsOf d runs).map (Measurement.observe key)) := by
  rw [afterRuns_eq_noteAll, collector_noteAll, List.filterMap_map, measurementsOf,
    List.map_filterMap]
  refine congrArg (Collector.pushAll _) (List.filterMap_congr fun (taken, r) _ => ?_)
  obtain ⟨verdict, value, signature⟩ := r
  cases verdict <;> rfl

theorem isGrouping_afterRuns [DecidableEq κ] :
    IsGrouping ((measurementsOf d runs).map (Measurement.observe key))
      (afterRuns d rule key runs).collector.finish := by
  rw [collector_afterRuns]
  exact Collector.isGrouping_pushAll _

end Runs

/-! ### The three timelines -/

section Timelines

variable (d : Delimiter) (rule : BandwidthRule) (runs : List (Run × List UInt8))

def byLabel : Collection String := (afterRuns d rule (fun _ r => r.signature) runs).finish

/-- The timeline by day, without missing days. -/
def byDay : Collection Date :=
  (afterRuns d rule (fun taken _ => taken.start.date) runs).finishContiguous

def byTime : Collection Stamp := (afterRuns d rule (fun taken _ => taken.start) runs).finish

end Timelines

end Session

/-! ### What timelines share -/

/-- The same readings were counted and the same ones not recognized, so that
    reports withhold statistics on both sides or on none. -/
structure Collection.SameReadings {κ₁ κ₂ : Type} (c₁ : Collection κ₁) (c₂ : Collection κ₂) :
    Prop where
  readings_eq : c₁.readings = c₂.readings
  unrecognized_eq : c₁.unrecognized = c₂.unrecognized
  withheld_eq : ∀ ranks₁ ranks₂ report₁ report₂, c₁.summarize ranks₁ = .ok report₁ →
    c₂.summarize ranks₂ = .ok report₂ → report₁.withheld = report₂.withheld

theorem Collection.sameReadings_of_eq {κ₁ κ₂ : Type} {c₁ : Collection κ₁} {c₂ : Collection κ₂}
    (hreadings : c₁.readings = c₂.readings) (hunrecognized : c₁.unrecognized = c₂.unrecognized) :
    c₁.SameReadings c₂ where
  readings_eq := hreadings
  unrecognized_eq := hunrecognized
  withheld_eq := by
    intro ranks₁ ranks₂ report₁ report₂ h₁ h₂
    rw [withheld_of_summarize h₁, withheld_of_summarize h₂, isTrustworthy, isTrustworthy,
      hunrecognized]

/-- Every sample of a group is one of its points, and these stand in chronological
    order at times of some kind. -/
structure Group.IsTimed (g : Group κ) (atTime : Stamp → Prop) : Prop where
  values_perm : (g.points.map (·.value)).Perm g.samples
  ascending : g.points.Pairwise fun p q => p.time ≤ q.time
  times : ∀ p ∈ g.points, atTime p.time

theorem Group.IsTimed.imp {g : Group κ} {p q : Stamp → Prop} (h : g.IsTimed p)
    (hpq : ∀ time, p time → q time) : g.IsTimed q :=
  ⟨h.values_perm, h.ascending, fun point hpoint => hpq _ (h.times point hpoint)⟩

section Measurements

variable [SeriesKey κ] [DecidableEq κ] {key : Run → Reading → κ} {ms : List Measurement}
  {groups : List (Group κ)}

theorem IsArrangement.isTimed (h : IsArrangement (ms.map (Measurement.observe key)) groups)
    {g : Group κ} (hg : g ∈ groups) : g.IsTimed fun time =>
      ∃ m ∈ ms, m.metric = g.metric ∧ key m.taken m.reading = g.key ∧ m.taken.start = time where
  values_perm := by
    refine h.values_perm_samples (fun o ho => ?_) hg
    obtain ⟨m, -, rfl⟩ := List.mem_map.1 ho
    rfl
  ascending := (h.points g hg).ascending
  times := by
    intro p hp
    obtain ⟨o, ho, htag, htime⟩ := h.exists_of_mem_points hg hp
    obtain ⟨m, hm, rfl⟩ := List.mem_map.1 ho
    exact ⟨m, hm, congrArg Tag.metric htag, congrArg Tag.key htag, Option.some_inj.1 htime⟩

/-- The samples under tags with a property are those of the measurements under
    such tags. -/
theorem IsArrangement.samplesWhere_perm_measured
    (h : IsArrangement (ms.map (Measurement.observe key)) groups) (p : Tag κ → Bool) :
    (samplesWhere p groups).Perm
      ((ms.filter fun m => p ⟨m.metric, key m.taken m.reading⟩).map (·.reading.value)) := by
  have hperm := h.samplesWhere_perm p
  rw [List.filter_map, List.map_map] at hperm
  exact hperm

theorem IsArrangement.samplesWhere_metric_perm
    (h : IsArrangement (ms.map (Measurement.observe key)) groups) (m : Metric) :
    (samplesWhere (·.metric = m) groups).Perm
      ((ms.filter (·.metric = m)).map (·.reading.value)) :=
  h.samplesWhere_perm_measured _

end Measurements

namespace Session

variable (d : Delimiter) (rule : BandwidthRule) (runs : List (Run × List UInt8))

theorem isArrangement_byDay :
    IsArrangement
      ((measurementsOf d runs).map (Measurement.observe fun taken _ => taken.start.date))
      (byDay d rule runs).groups := by
  have hgrouping := isGrouping_afterRuns d rule (fun taken _ => taken.start.date) runs
  exact (Collector.isDaily_of_isGrouping hgrouping).isArrangement hgrouping

/-- A time was observed on a day exactly if one of its runs was measured then. -/
theorem exists_byTime_iff (m : Metric) (day : Date) :
    (∃ t ∈ (byTime d rule runs).groups, t.metric = m ∧ t.key.date = day) ↔
      ∃ e ∈ measurementsOf d runs, e.metric = m ∧ e.taken.start.date = day := by
  have htimes := isGrouping_afterRuns d rule (fun taken _ => taken.start) runs
  constructor
  · rintro ⟨t, ht, rfl, rfl⟩
    have hobserved := mt (htimes.samples_eq_nil_iff ht).2 (htimes.samples_ne_nil t ht)
    push Not at hobserved
    obtain ⟨o, ho, htag⟩ := hobserved
    obtain ⟨e, he, rfl⟩ := List.mem_map.1 ho
    exact ⟨e, he, congrArg Tag.metric htag, congrArg (fun tag => tag.key.date) htag⟩
  · rintro ⟨e, he, rfl, rfl⟩
    obtain ⟨t, ht, htag⟩ := htimes.exists_group _ (List.mem_map_of_mem he)
    exact ⟨t, ht, congrArg Tag.metric htag, congrArg (fun tag => tag.key.date) htag⟩

/-- The values measured on a day. -/
def valuesOn (m : Metric) (day : Date) : List Binary64 :=
  ((measurementsOf d runs).filter fun e =>
    e.metric = m ∧ e.taken.start.date = day).map (·.reading.value)

theorem samplesWhere_byTime_perm (m : Metric) (day : Date) :
    (samplesWhere (fun tag => tag.metric = m ∧ tag.key.date = day) (byTime d rule runs).groups).Perm
      (valuesOn d runs m day) :=
  (isGrouping_afterRuns d rule
    (fun taken _ => taken.start) runs).toIsArrangement.samplesWhere_perm_measured _

theorem samplesWhere_byDay_perm (m : Metric) (day : Date) :
    (samplesWhere (fun tag => tag.metric = m ∧ tag.key = day) (byDay d rule runs).groups).Perm
      (valuesOn d runs m day) :=
  (isArrangement_byDay d rule runs).samplesWhere_perm_measured _

theorem samples_byDay {g : Group Date} (hg : g ∈ (byDay d rule runs).groups) :
    g.samples = valuesOn d runs g.metric g.key := by
  rw [(isArrangement_byDay d rule runs).samples_eq g hg, List.filter_map, List.map_map]
  refine congrArg (List.map _) (List.filter_congr fun e _ => ?_)
  simp [Measurement.observe, Group.tag]

/-- A day has no samples exactly if it has no times. -/
theorem samples_byDay_eq_nil_iff {g : Group Date} (hg : g ∈ (byDay d rule runs).groups) :
    g.samples = [] ↔
      ∀ t ∈ (byTime d rule runs).groups, ¬ (t.metric = g.metric ∧ t.key.date = g.key) := by
  have hnot := not_congr (exists_byTime_iff d rule runs g.metric g.key)
  push Not at hnot
  rw [samples_byDay d rule runs hg, valuesOn, List.map_eq_nil_iff, List.filter_eq_nil_iff]
  simpa using hnot.symm

theorem byLabel_sameReadings_byDay : (byLabel d rule runs).SameReadings (byDay d rule runs) :=
  Collection.sameReadings_of_eq
    ((readings_afterRuns d rule _ runs).trans (readings_afterRuns d rule _ runs).symm)
    ((unrecognized_afterRuns d rule _ runs).trans (unrecognized_afterRuns d rule _ runs).symm)

theorem byDay_sameReadings_byTime : (byDay d rule runs).SameReadings (byTime d rule runs) :=
  Collection.sameReadings_of_eq
    ((readings_afterRuns d rule _ runs).trans (readings_afterRuns d rule _ runs).symm)
    ((unrecognized_afterRuns d rule _ runs).trans (unrecognized_afterRuns d rule _ runs).symm)

/-- **Three views of the same runs.**  The timelines by label, day and time count
    the same readings and hold the same samples of each metric.  The samples of
    a day are those of its times, and it has none exactly if it is a gap.  Every
    sample is one point of its group, in chronological order, on the day or at
    the time of the group. -/
theorem timelines_agree (d : Delimiter) (rule : BandwidthRule)
    (runs : List (Run × List UInt8)) :
    let labels := byLabel d rule runs
    let days := byDay d rule runs
    let times := byTime d rule runs
    (labels.SameReadings days ∧ days.SameReadings times) ∧
      (∀ m, (samplesWhere (·.metric = m) labels.groups).Perm
          (samplesWhere (·.metric = m) days.groups) ∧
        (samplesWhere (·.metric = m) days.groups).Perm
          (samplesWhere (·.metric = m) times.groups)) ∧
      (∀ m day, (samplesWhere (fun tag => tag.metric = m ∧ tag.key = day) days.groups).Perm
        (samplesWhere (fun tag => tag.metric = m ∧ tag.key.date = day) times.groups)) ∧
      (∀ g ∈ days.groups, g.samples.Perm
          (samplesWhere (fun tag => tag.metric = g.metric ∧ tag.key.date = g.key) times.groups) ∧
        (g.samples = [] ↔ ∀ t ∈ times.groups, ¬ (t.metric = g.metric ∧ t.key.date = g.key))) ∧
      (∀ g ∈ labels.groups, g.IsTimed fun _ => True) ∧
      (∀ g ∈ days.groups, g.IsTimed (·.date = g.key)) ∧
      ∀ g ∈ times.groups, g.IsTimed (· = g.key) := by
  intro labels days times
  have hlabels := (isGrouping_afterRuns d rule (fun _ r => r.signature) runs).toIsArrangement
  have hdays := isArrangement_byDay d rule runs
  have htimes := (isGrouping_afterRuns d rule (fun taken _ => taken.start) runs).toIsArrangement
  refine ⟨⟨byLabel_sameReadings_byDay d rule runs, byDay_sameReadings_byTime d rule runs⟩,
    fun m => ⟨?_, ?_⟩, fun m day => ?_, fun g hg => ⟨?_, samples_byDay_eq_nil_iff d rule runs hg⟩,
    fun g hg => ?_, fun g hg => ?_, fun g hg => ?_⟩
  · exact (hlabels.samplesWhere_metric_perm m).trans (hdays.samplesWhere_metric_perm m).symm
  · exact (hdays.samplesWhere_metric_perm m).trans (htimes.samplesWhere_metric_perm m).symm
  · exact (samplesWhere_byDay_perm d rule runs m day).trans
      (samplesWhere_byTime_perm d rule runs m day).symm
  · rw [samples_byDay d rule runs hg]
    exact (samplesWhere_byTime_perm d rule runs g.metric g.key).symm
  · exact (hlabels.isTimed hg).imp fun _ _ => trivial
  · refine (hdays.isTimed hg).imp ?_
    rintro time ⟨e, -, -, hday, rfl⟩
    exact hday
  · refine (htimes.isTimed hg).imp ?_
    rintro time ⟨e, -, -, htime, rfl⟩
    exact htime

/-- Two runs of one day, the later one first, and a run two days after it. -/
theorem timelines_agree_gap_day :
    let runs : List (Run × List UInt8) := [
      (⟨"2", Date.atClock ⟨2015, 8, 30, by decide⟩ 20 0 0⟩,
        Text.encodeUtf8 "r, a, 1\nnoise\nw, a, 2\n".toList),
      (⟨"3", Date.atClock ⟨2015, 9, 1, by decide⟩ 9 0 0⟩, Text.encodeUtf8 "r, b, 3".toList),
      (⟨"1", Date.atClock ⟨2015, 8, 30, by decide⟩ 8 0 0⟩,
        Text.encodeUtf8 "r, a, 4\r\n".toList)]
    let days := byDay .comma .standard runs
    let times := byTime .comma .standard runs
    (byLabel .comma .standard runs).SameReadings days ∧ days.readings = 4 ∧
      days.groups.map (fun g => (g.metric, g.key.day, g.samples)) = [
        (.read, 30, [.ofNat 1, .ofNat 4]), (.read, 31, []), (.read, 1, [.ofNat 3]),
        (.write, 30, [.ofNat 2])] ∧
      ∃ g ∈ days.groups, g.samples = [.ofNat 1, .ofNat 4] ∧ g.IsTimed (·.date = g.key) ∧
        g.samples.Perm (samplesWhere (fun tag => tag.metric = g.metric ∧ tag.key.date = g.key)
          times.groups) := by
  intro runs days times
  obtain ⟨⟨hsame, -⟩, -, -, hdays, -, htimed, -⟩ := timelines_agree .comma .standard runs
  obtain ⟨g, hg, hsamples⟩ : ∃ g ∈ days.groups, g.samples = [.ofNat 1, .ofNat 4] := by
    decide +kernel
  exact ⟨hsame, by decide +kernel, by decide +kernel, g, hg, hsamples, htimed g hg,
    (hdays g hg).1⟩

end Session

end Throughput
