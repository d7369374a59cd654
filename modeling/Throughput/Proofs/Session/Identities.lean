/-
  Throughput/Proofs/Session/Identities.lean
  =========================================
  **Labels tell series apart.**  A label is all that an analysis keeps of the key of a
  series.  Days and times on a whole second are read back from their labels, so labels
  of different keys differ.  A signature still begins with the field that names the
  operation (`Reading.operationOf?_signature`), so that it is never empty and never
  belongs to reads as well as to writes.  In every report of a session with such keys
  the labels are there and tell its series apart (`Session.labels_identify`).
-/
import Throughput.Analysis.Basic
import Throughput.Proofs.Calendar.Written
import Throughput.Proofs.Reading.Fields
import Throughput.Proofs.Report.Summaries
import Throughput.Proofs.Session.Finishing

namespace Throughput

/-! ### Days and times -/

theorem Date.text_injective {a b : Date} (h : a.text = b.text) : a = b := by
  have ha := Scan.date?_text a []
  rw [h, Scan.date?_text b []] at ha
  cases ha
  rfl

theorem Date.text_ne_nil (d : Date) : d.text ≠ [] := by
  simp [text]

namespace Stamp

/-- A time without a fraction of a second.  The leap second counts as second 59 and a
    whole second more; no clock shows that at another second. -/
def IsWholeSecond (s : Stamp) : Prop :=
  s.nano = 0 ∨ s.nano = nanosPerSecond ∧ s.second = 59

instance (s : Stamp) : Decidable s.IsWholeSecond := inferInstanceAs (Decidable (_ ∨ _))

theorem label_ne_empty (s : Stamp) : s.label ≠ "" := by
  intro h
  have hlabel : s.label.toList = [] := by rw [h]; rfl
  rw [label, String.toList_ofList] at hlabel
  exact s.date.text_ne_nil (List.append_eq_nil_iff.1 hlabel).1

theorem clock?_of_isWholeSecond {s : Stamp} (h : s.IsWholeSecond) :
    Scan.clock? s.date s.clockText = some (s, []) := by
  have hclock : s.nano < nanosPerSecond ∨ s.second = 59 := by
    rcases h with hnano | ⟨-, hsecond⟩
    · exact .inl (by rw [hnano]; decide)
    · exact .inr hsecond
  have hfraction : s.fractionText = [] := by
    have hnano : s.nano % nanosPerSecond = 0 := by
      rcases h with hnano | ⟨hnano, -⟩ <;> rw [hnano] <;> rfl
    simp only [fractionText, hnano, if_true]
  have hread := Scan.clock?_clockText s hclock ends_nil (by decide)
  rwa [hfraction, List.append_nil, List.append_nil] at hread

/-- Nothing of a whole second is left out of its label. -/
theorem label_injective {a b : Stamp} (ha : a.IsWholeSecond) (hb : b.IsWholeSecond)
    (h : a.label = b.label) : a = b := by
  have htext := congrArg String.toList h
  rw [label, label, String.toList_ofList, String.toList_ofList] at htext
  have hread := Scan.date?_text a.date (' ' :: a.clockText)
  rw [htext, Scan.date?_text b.date] at hread
  obtain ⟨hdate, hclock⟩ := Prod.mk.inj (Option.some.inj hread)
  have hread := clock?_of_isWholeSecond ha
  rw [← hdate, ← (List.cons.inj hclock).2, clock?_of_isWholeSecond hb] at hread
  cases hread
  rfl

end Stamp

/-! ### Signatures -/

namespace Reading

/-- The operation that the first field of a signature names. -/
def operationOf? (d : Delimiter) (signature : String) : Option Operation :=
  operation? (Text.trim (firstField d signature.toList))

theorem operationOf?_empty (d : Delimiter) : operationOf? d "" = none := by
  cases d <;> decide

/-- **The signature of a recognized reading names its operation.** -/
theorem operationOf?_signature {d : Delimiter} {text : List Char} {r : Reading}
    (h : parse? d text = some r) {operation : Operation}
    (hverdict : r.verdict = .measured operation) :
    operationOf? d r.signature = some operation := by
  cases hline : Text.dropEnding isLineEnd text with
  | nil => simp [parse?, hline] at h
  | cons c rest =>
    rw [parse?_of_cons hline] at h
    obtain ⟨hc, rfl⟩ : isMarker c = true ∧ ofLine d (c :: rest) = r := by simpa using h
    rcases verdict_ofLine d (c :: rest) with ⟨found, x, hop, hx, hreading⟩ | ⟨-, hother⟩
    · -- the field of the marker is not the last one, so the signature keeps it
      obtain ⟨first, more, last, hfields⟩ := exists_init_of_measured hc hop hx
      have hkept : d.fields (d.join ((c :: first) :: more)).toList = (c :: first) :: more := by
        apply Delimiter.fields_join (List.cons_ne_nil _ _)
        intro field hfield
        have hmem : field ∈ d.fields (c :: rest) := by
          rw [hfields]
          exact List.mem_append_left _ hfield
        exact Delimiter.isField_of_mem_fields hmem
      have hfirst : firstField d (d.join ((c :: first) :: more)).toList =
          firstField d (c :: rest) := by
        rw [firstField, firstField, hkept, hfields]
        rfl
      rw [hreading] at hverdict
      cases hverdict
      rw [hreading, operationOf?, hfields, List.dropLast_concat, hfirst, hop]
    · rw [hother] at hverdict
      cases hverdict

end Reading

/-! ### Steps that take in readings by their signatures -/

namespace Feed

/-- A step that brings in readings of disk logs under their signatures. -/
def IsBySignature : Feed String → Prop
  | .line key _ => key = Reading.signature
  | .disk key _ => key = Reading.signature
  | .run _ key _ => key = Reading.signature
  | .network _ _ => False
  | .node _ _ => False

theorem exists_parse?_of_mem_candidates {κ : Type} {d : Delimiter} {step : Feed κ} {r : Reading}
    (h : r ∈ step.candidates d) : ∃ text, Reading.parse? d text = some r := by
  have hlog : ∀ log : Source, r ∈ log.readings d → ∃ text, Reading.parse? d text = some r := by
    intro log hr
    obtain ⟨line, -, hparse⟩ := List.mem_filterMap.1 hr
    exact ⟨_, hparse⟩
  cases step with
  | line key text => exact ⟨text, Option.mem_toList.1 h⟩
  | disk key log => exact hlog log h
  | run taken key log => exact hlog log h
  | network key log => cases h
  | node key logs => cases h

theorem IsBySignature.exists_findings_eq {step : Feed String} (h : step.IsBySignature)
    (d : Delimiter) (rule : BandwidthRule) : ∃ time,
      step.findings d rule = (step.candidates d).map (.ofReading time Reading.signature) := by
  cases step with
  | line key text =>
    obtain rfl : key = Reading.signature := h
    exact ⟨none, rfl⟩
  | disk key log =>
    obtain rfl : key = Reading.signature := h
    exact ⟨none, rfl⟩
  | run taken key log =>
    obtain rfl : key = Reading.signature := h
    exact ⟨some taken.start, rfl⟩
  | network key log => cases h
  | node key logs => cases h

end Feed

theorem Finding.exists_of_ofReading_eq_sample {κ : Type} {time : Option Stamp}
    {key : Reading → κ} {r : Reading} {o : Observation κ} (h : ofReading time key r = sample o) :
    ∃ operation, r.verdict = .measured operation ∧ o.tag = ⟨.ofOperation operation, key r⟩ := by
  unfold ofReading at h
  split at h
  next operation hverdict =>
    cases h
    exact ⟨operation, hverdict, rfl⟩
  next => cases h

namespace Session

/-- Every group of such a session is that of the operation its key names. -/
theorem operationOf?_key {d : Delimiter} {rule : BandwidthRule} {steps : List (Feed String)}
    (hsteps : ∀ step ∈ steps, step.IsBySignature) {g : Group String}
    (hg : g ∈ (after d rule steps).finish.groups) : ∃ operation,
      Reading.operationOf? d g.key = some operation ∧ g.metric = .ofOperation operation := by
  obtain ⟨o, ho, htag⟩ := (isGrouping_after d rule steps).exists_observation hg
  obtain ⟨finding, hfinding, hsample⟩ := List.mem_filterMap.1 ho
  obtain ⟨step, hstep, hfinding⟩ := List.mem_flatMap.1 hfinding
  obtain ⟨time, hfindings⟩ := (hsteps step hstep).exists_findings_eq d rule
  rw [hfindings] at hfinding
  obtain ⟨r, hr, rfl⟩ := List.mem_map.1 hfinding
  obtain ⟨text, hparse⟩ := Feed.exists_parse?_of_mem_candidates hr
  cases hreading : Finding.ofReading time Reading.signature r with
  | unrecognized r' =>
    rw [hreading] at hsample
    cases hsample
  | sample o' =>
    rw [hreading] at hsample
    cases hsample
    obtain ⟨operation, hverdict, hkey⟩ := Finding.exists_of_ofReading_eq_sample hreading
    rw [hkey] at htag
    refine ⟨operation, ?_, (congrArg Tag.metric htag).symm⟩
    rw [← Reading.operationOf?_signature hparse hverdict]
    exact congrArg (Reading.operationOf? d) (congrArg Tag.key htag).symm

/-- Groups stand in the order of their tags, in whatever way a session is finished. -/
theorem Finishes.ascending {κ : Type} [SeriesKey κ] {s : Session κ} {c : Collection κ}
    (h : s.Finishes c) : c.groups.Pairwise fun g h => g.tag.before h.tag = true := by
  cases h with
  | plainly s => exact List.pairwise_map.2 s.collector.ascending
  | daily s => exact Collector.pairwise_fillGaps (List.pairwise_map.2 s.collector.ascending)

end Session

/-! ### Labels in reports -/

namespace Collection

variable {κ : Type}

/-- A report shows groups under their metrics and keys, in their order. -/
theorem sublist_of_summarize {c : Collection κ} {ranks : List Binary64} {report : Report κ}
    (h : c.summarize ranks = .ok report) :
    (report.series.map fun s => (⟨s.metric, s.key⟩ : Tag κ)).Sublist
      (c.groups.map Group.tag) := by
  rcases summarize_eq_ok_iff.1 h with ⟨-, series, hseries, rfl⟩ | ⟨-, rfl⟩
  · have htags : series.map (fun s => (⟨s.metric, s.key⟩ : Tag κ)) = c.groups.map Group.tag := by
      rw [← List.forall₂_eq_eq_eq, List.forall₂_map_left_iff, List.forall₂_map_right_iff]
      apply (mapM_eq_ok_iff.1 hseries).flip.imp
      intro summary g hsummary
      rcases Group.summarize_eq_ok_iff.1 hsummary with ⟨-, rfl⟩ | ⟨t, -, rfl⟩ <;> rfl
    exact htags ▸ List.Sublist.refl _
  · exact List.nil_sublist _

variable [SeriesKey κ]

/-- What tells the tags of all groups apart tells the series of a report apart. -/
theorem nodup_map_of_summarize {α : Type} (name : Tag κ → α) {c : Collection κ}
    {ranks : List Binary64} {report : Report κ} (h : c.summarize ranks = .ok report)
    (hascending : c.groups.Pairwise fun g h => g.tag.before h.tag = true)
    (hname : ∀ g ∈ c.groups, ∀ g' ∈ c.groups, name g.tag = name g'.tag → g.tag = g'.tag) :
    (report.series.map fun s => name ⟨s.metric, s.key⟩).Nodup := by
  have hnames : ((c.groups.map Group.tag).map name).Nodup := by
    apply (Group.nodup_tags hascending).map_on
    intro tag htag tag' htag' heq
    obtain ⟨g, hg, rfl⟩ := List.mem_map.1 htag
    obtain ⟨g', hg', rfl⟩ := List.mem_map.1 htag'
    exact hname g hg g' hg' heq
  have hshown := (sublist_of_summarize h).map name
  rw [List.map_map] at hshown
  exact hnames.sublist hshown

end Collection

/-- Each series has a label, and no other series of its metric has the same one. -/
structure Analysis.IsLabelled (a : Analysis) : Prop where
  label_ne_empty : ∀ s ∈ a.series, s.label ≠ ""
  nodup : (a.series.map fun s => (s.metric, s.label)).Nodup

namespace Collection

variable {κ : Type} [SeriesKey κ] {c : Collection κ}

/-- A report exists for all valid ranks, and the analysis made of it is as asked. -/
def Shows (c : Collection κ) (p : Analysis → Prop) : Prop :=
  ∀ ranks : List Binary64, (∀ rank ∈ ranks, Quantity.isRank rank = true) →
    ∃ report, c.summarize ranks = .ok report ∧
      ∀ title generated, p (Analysis.ofReport title generated report)

theorem isLabelled_of_summarize {ranks : List Binary64} {report : Report κ}
    (h : c.summarize ranks = .ok report)
    (hascending : c.groups.Pairwise fun g h => g.tag.before h.tag = true)
    (hne : ∀ g ∈ c.groups, SeriesKey.label g.key ≠ "")
    (hinj : ∀ g ∈ c.groups, ∀ g' ∈ c.groups,
      SeriesKey.label g.key = SeriesKey.label g'.key → g.key = g'.key)
    (title : String) (generated : Stamp) :
    (Analysis.ofReport title generated report).IsLabelled := by
  constructor
  case label_ne_empty =>
    intro s hs
    obtain ⟨summary, hsummary, rfl⟩ := List.mem_map.1 hs
    obtain ⟨g, hg, htag⟩ := List.mem_map.1
      ((sublist_of_summarize h).subset (List.mem_map_of_mem hsummary))
    have hkey : g.key = summary.key := congrArg Tag.key htag
    rw [SeriesSummary.ofGroup, ← hkey]
    exact hne g hg
  case nodup =>
    rw [Analysis.ofReport, List.map_map]
    apply nodup_map_of_summarize (fun tag => (tag.metric, SeriesKey.label tag.key)) h hascending
    intro g hg g' hg' heq
    obtain ⟨hmetric, hlabel⟩ := Prod.mk.inj heq
    rw [Group.tag, Group.tag, hinj g hg g' hg' hlabel, show g.metric = g'.metric from hmetric]

end Collection

/-! ### Sessions -/

namespace Session

theorem shows_isLabelled_date {s : Session Date} {c : Collection Date} (h : s.Finishes c) :
    c.Shows Analysis.IsLabelled := by
  intro ranks hranks
  obtain ⟨report, hreport⟩ := c.exists_summarize hranks
  refine ⟨report, hreport, Collection.isLabelled_of_summarize hreport h.ascending ?_ ?_⟩
  · intro g _ hlabel
    exact g.key.text_ne_nil (String.ofList_eq_empty_iff.1 hlabel)
  · intro g _ g' _ hlabel
    exact Date.text_injective (String.ofList_injective hlabel)

theorem shows_isLabelled_stamp {s : Session Stamp}
    (hwhole : ∀ g ∈ s.finish.groups, g.key.IsWholeSecond) :
    s.finish.Shows Analysis.IsLabelled := by
  intro ranks hranks
  obtain ⟨report, hreport⟩ := s.finish.exists_summarize hranks
  refine ⟨report, hreport, Collection.isLabelled_of_summarize hreport
    (Finishes.plainly s).ascending ?_ ?_⟩
  · intro g _
    exact g.key.label_ne_empty
  · intro g hg g' hg' hlabel
    exact Stamp.label_injective (hwhole g hg) (hwhole g' hg') hlabel

theorem shows_isLabelled_signature {d : Delimiter} {rule : BandwidthRule}
    {steps : List (Feed String)} (hsteps : ∀ step ∈ steps, step.IsBySignature) :
    (after d rule steps).finish.Shows fun a => a.IsLabelled ∧ (a.series.map (·.label)).Nodup := by
  intro ranks hranks
  obtain ⟨report, hreport⟩ := (after d rule steps).finish.exists_summarize hranks
  have hascending := (Finishes.plainly (after d rule steps)).ascending
  refine ⟨report, hreport, fun title generated => ⟨?_, ?_⟩⟩
  · apply Collection.isLabelled_of_summarize hreport hascending
    · intro g hg hempty
      obtain ⟨operation, hoperation, -⟩ := operationOf?_key hsteps hg
      rw [show g.key = "" from hempty, Reading.operationOf?_empty] at hoperation
      cases hoperation
    · intro g _ g' _ hlabel
      exact hlabel
  · rw [Analysis.ofReport, List.map_map]
    apply Collection.nodup_map_of_summarize (fun tag => tag.key) hreport hascending
    intro g hg g' hg' hkey
    -- groups of one key are groups of the operation that it names
    obtain ⟨operation, hoperation, hmetric⟩ := operationOf?_key hsteps hg
    obtain ⟨operation', hoperation', hmetric'⟩ := operationOf?_key hsteps hg'
    have hsame : g.key = g'.key := hkey
    rw [hsame, hoperation'] at hoperation
    cases hoperation
    rw [Group.tag, Group.tag, hsame, hmetric, hmetric']

/-- **Labels identify series.**  An analysis of a session by days, finished in either
    way, by times on whole seconds or by signatures of disk logs exists at any ranks
    between 0 and 100, each of its series has a label, and no two series of a metric
    have the same one.  Under signatures no two series have the same label at all: read
    under one delimiter, readings of one signature are reads or writes alike. -/
theorem labels_identify (d : Delimiter) (rule : BandwidthRule) :
    (∀ (steps : List (Feed Date)) (c : Collection Date), (after d rule steps).Finishes c →
      c.Shows Analysis.IsLabelled) ∧
    (∀ steps : List (Feed Stamp),
      (∀ g ∈ (after d rule steps).finish.groups, g.key.IsWholeSecond) →
        (after d rule steps).finish.Shows Analysis.IsLabelled) ∧
    (∀ steps : List (Feed String), (∀ step ∈ steps, step.IsBySignature) →
      (after d rule steps).finish.Shows fun a =>
        a.IsLabelled ∧ (a.series.map (·.label)).Nodup) ∧
    ∀ text text' r r' operation operation',
      Reading.parse? d text = some r → r.verdict = .measured operation →
      Reading.parse? d text' = some r' → r'.verdict = .measured operation' →
        r.signature = r'.signature → operation = operation' := by
  refine ⟨?_, ?_, ?_, ?_⟩
  · intro steps c h
    exact shows_isLabelled_date h
  · intro steps hwhole
    exact shows_isLabelled_stamp hwhole
  · intro steps hsteps
    exact shows_isLabelled_signature hsteps
  · intro text text' r r' operation operation' h hverdict h' hverdict' hsignature
    have hoperation := Reading.operationOf?_signature h hverdict
    rw [hsignature, Reading.operationOf?_signature h' hverdict'] at hoperation
    exact (Option.some.inj hoperation).symm

/-- Runs on two days with a day missing between them; runs in the last second of a year
    and in the leap second after it; and a log of reads and writes with the marker padded. -/
theorem labels_identify_leap_second :
    let run (start : Stamp) : Feed Stamp :=
      .run ⟨"27", start⟩ (fun _ => start) (.ofText "r, a, 4\n")
    let daily (day : Date) : Feed Date := .disk (fun _ => day) (.ofText "r, a, 4\nw, a, 5\n")
    let second := Date.atClock ⟨2016, 12, 31, by decide⟩ 23 59 59
    let days := (after .comma .standard
      [daily ⟨2017, 1, 1, by decide⟩, daily ⟨2016, 12, 30, by decide⟩]).finishContiguous
    let times := (after .comma .standard
      [run { second with nano := nanosPerSecond, nano_lt := by decide }, run second]).finish
    let signatures := (after .comma .standard
      [.disk Reading.signature (.ofText "w, a, 5\nr , a, 4\nr , a, 6\n")]).finish
    days.Shows Analysis.IsLabelled ∧ times.Shows Analysis.IsLabelled ∧
    (signatures.Shows fun a => a.IsLabelled ∧ (a.series.map (·.label)).Nodup) ∧
    days.groups.map (fun g => SeriesKey.label g.key) = ["2016-12-30", "2016-12-31", "2017-01-01",
      "2016-12-30", "2016-12-31", "2017-01-01"] ∧
    times.groups.map (·.key.label) = ["2016-12-31 23:59:59", "2016-12-31 23:59:60"] ∧
    signatures.groups.map (·.key) = ["r , a", "w, a"] ∧
    ∃ r r' : Reading, Reading.parse? .comma "r , a, 4".toList = some r ∧
      Reading.parse? .comma "r , a, 6\r\n".toList = some r' ∧ r.signature = r'.signature ∧
      ∀ operation operation', r.verdict = .measured operation →
        r'.verdict = .measured operation' → operation = operation' := by
  intro run daily second days times signatures
  obtain ⟨hdays, htimes, hsignatures, hreadings⟩ := labels_identify .comma .standard
  have hparse : Reading.parse? .comma "r , a, 4".toList =
      some ⟨.measured .read, .ofNat 4, "r , a"⟩ := by decide +kernel
  have hparse' : Reading.parse? .comma "r , a, 6\r\n".toList =
      some ⟨.measured .read, .ofNat 6, "r , a"⟩ := by decide +kernel
  refine ⟨hdays _ _ (Finishes.daily _), htimes _ (by decide +kernel), hsignatures _ ?_,
    by decide +kernel, by decide +kernel, by decide +kernel, _, _, hparse, hparse', rfl, ?_⟩
  · intro step hstep
    rw [List.mem_singleton.1 hstep]
    rfl
  · intro operation operation' hverdict hverdict'
    exact hreadings _ _ _ _ _ _ hparse hverdict hparse' hverdict' rfl

end Session

end Throughput
