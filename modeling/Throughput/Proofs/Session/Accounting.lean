/-
  Throughput/Proofs/Session/Accounting.lean
  =========================================
  **Every reading is accounted for.**  The readings that a session has counted
  are its samples and its unrecognized readings, after any steps and whatever
  failed on the way.  So the series of a trustworthy report count exactly the
  readings that the report states (`readings_accounted`).
-/
import Throughput.Proofs.Report.Summaries
import Throughput.Proofs.Session.Findings

namespace Throughput

variable {κ : Type}

/-! ### The invariant -/

/-- A reading that was not understood, with what it was cut into. -/
def Reading.KeepsFields (r : Reading) : Prop := r.isRecognized = false ∧ r.rawFields ≠ []

theorem Reading.keepsFields_of_parse? {d : Delimiter} {text : List Char} {r : Reading}
    {fields : List String} (h : parse? d text = some r) (hr : r.verdict = .unrecognized fields) :
    r.KeepsFields := by
  constructor
  · rw [isRecognized, hr]
  · rw [rawFields, hr]
    exact fields_ne_nil_of_parse? h hr

def Finding.KeepsFields (f : Finding κ) : Prop := ∀ r, f = .unrecognized r → r.KeepsFields

/-- Each reading counted is a sample or an unrecognized reading with fields. -/
structure Session.Accounted [SeriesKey κ] (s : Session κ) : Prop where
  readings_eq : s.readings = s.collector.sampleCount + s.unrecognized.size
  keepsFields : ∀ r ∈ s.unrecognized, r.KeepsFields

/-! ### Findings keep their fields -/

namespace Finding

theorem keepsFields_ofReading {d : Delimiter} {text : List Char} {r : Reading}
    (h : Reading.parse? d text = some r) (time : Option Stamp) (key : Reading → κ) :
    (ofReading time key r).KeepsFields := by
  intro r' hr'
  unfold ofReading at hr'
  split at hr'
  next => cases hr'
  next fields hverdict =>
    cases hr'
    exact Reading.keepsFields_of_parse? h hverdict

theorem keepsFields_ofBandwidth (key : κ) (outcome : Except Failure Binary64) :
    ∀ f ∈ ofBandwidth key outcome, f.KeepsFields := by
  intro f hf r hr
  cases outcome with
  | error e => cases hf
  | ok value =>
    rw [ofBandwidth, List.mem_singleton] at hf
    rw [hf] at hr
    cases hr

end Finding

theorem Feed.keepsFields_findings (d : Delimiter) (rule : BandwidthRule) (step : Feed κ) :
    ∀ f ∈ step.findings d rule, f.KeepsFields := by
  have hlog : ∀ (time : Option Stamp) (key : Reading → κ) (log : Source),
      ∀ f ∈ (log.readings d).map (Finding.ofReading time key), f.KeepsFields := by
    intro time key log f hf
    obtain ⟨r, hr, rfl⟩ := List.mem_map.1 hf
    obtain ⟨line, -, hline⟩ := List.mem_filterMap.1 hr
    exact Finding.keepsFields_ofReading hline time key
  cases step with
  | line key text =>
    intro f hf
    obtain ⟨r, hr, rfl⟩ := List.mem_map.1 hf
    exact Finding.keepsFields_ofReading (Option.mem_toList.1 hr) none key
  | disk key log => exact hlog none key log
  | run taken key log => exact hlog (some taken.start) key log
  | network key log => exact Finding.keepsFields_ofBandwidth key _
  | node key logs => exact Finding.keepsFields_ofBandwidth key _

/-! ### Steps keep the invariant -/

namespace Session

variable [SeriesKey κ]

theorem accounted_start (d : Delimiter) (rule : BandwidthRule) :
    (start d rule : Session κ).Accounted where
  readings_eq := rfl
  keepsFields r hr := absurd hr (Array.not_mem_empty r)

theorem Accounted.note {s : Session κ} (h : s.Accounted) {f : Finding κ} (hf : f.KeepsFields) :
    (s.note f).Accounted := by
  have hreadings := h.readings_eq
  cases f with
  | sample o =>
    refine ⟨?_, h.keepsFields⟩
    simp only [Session.note, Collector.sampleCount_push]
    omega
  | unrecognized r =>
    constructor
    · simp only [Session.note, Array.size_push]
      omega
    · intro r' hr'
      rcases Array.mem_push.1 hr' with hr' | rfl
      · exact h.keepsFields r' hr'
      · exact hf r' rfl

theorem Accounted.noteAll {s : Session κ} (h : s.Accounted) {fs : List (Finding κ)}
    (hfs : ∀ f ∈ fs, f.KeepsFields) : (s.noteAll fs).Accounted := by
  induction fs generalizing s with
  | nil => exact h
  | cons f fs ih =>
    obtain ⟨hf, hrest⟩ := List.forall_mem_cons.1 hfs
    exact ih (h.note hf) hrest

/-- What one step preserves. -/
theorem Accounted.feed {s : Session κ} (h : s.Accounted) (step : Feed κ) :
    (s.feed step).Accounted := by
  rw [feed_eq_noteAll]
  exact h.noteAll (step.keepsFields_findings _ _)

/-- What any run of steps preserves. -/
theorem Accounted.foldl_feed {s : Session κ} (h : s.Accounted) (steps : List (Feed κ)) :
    (steps.foldl Session.feed s).Accounted := by
  induction steps generalizing s with
  | nil => exact h
  | cons step steps ih => exact ih (h.feed step)

theorem accounted_after (d : Delimiter) (rule : BandwidthRule) (steps : List (Feed κ)) :
    (after d rule steps).Accounted :=
  (accounted_start d rule).foldl_feed steps

theorem readings_diskLog {time : Option Stamp} {key : Reading → κ} {s : Session κ} {log : Source}
    {n : Nat} (h : (s.diskLog time key log).1 = .ok n) :
    (s.diskLog time key log).2.readings = s.readings + n := by
  rw [diskLog_eq] at h ⊢
  split at h
  · cases h
    rw [readings_noteAll, List.length_map]
  · cases h

end Session

/-! ### Reports -/

/-- A report exists for all valid ranks, and unless statistics are withheld its
    series count every reading. -/
structure Collection.Balanced (c : Collection κ) : Prop where
  exists_report : ∀ ranks : List Binary64,
    (∀ rank ∈ ranks, Quantity.isRank rank = true) → ∃ report, c.summarize ranks = .ok report
  sum_count : c.isTrustworthy = true → ∀ ranks report, c.summarize ranks = .ok report →
    (report.series.map (·.count)).sum = report.readings

/-- A collection is balanced if its groups count what it counts beside its
    unrecognized readings. -/
theorem Collection.balanced_of_readings_eq {c : Collection κ}
    (h : c.readings = (c.groups.map Group.count).sum + c.unrecognized.length) : c.Balanced where
  exists_report _ hranks := c.exists_summarize hranks
  sum_count htrust ranks report hreport := by
    obtain ⟨hreadings, hsum⟩ := sum_count_of_summarize htrust hreport
    have hnil : c.unrecognized = [] := List.isEmpty_iff.1 htrust
    rw [hnil, List.length_nil, Nat.add_zero] at h
    rw [hsum, hreadings, h]

namespace Session

theorem Accounted.balanced_finish [SeriesKey κ] {s : Session κ} (h : s.Accounted) :
    s.finish.Balanced := by
  refine Collection.balanced_of_readings_eq ?_
  simp only [finish, Collector.sum_count_finish, Array.length_toList]
  exact h.readings_eq

theorem Accounted.balanced_finishContiguous {s : Session Date} (h : s.Accounted) :
    s.finishContiguous.Balanced := by
  refine Collection.balanced_of_readings_eq ?_
  simp only [finishContiguous, Collector.sum_count_finishContiguous, Array.length_toList]
  exact h.readings_eq

/-- **Nothing is lost or counted twice.**  After any steps the readings are the
    samples and the unrecognized readings, which keep their fields; the series
    of a trustworthy report count all of its readings, gaps filled or not; and
    a disk log that is read to its end adds as many readings as it reports. -/
theorem readings_accounted (d : Delimiter) (rule : BandwidthRule) :
    (∀ {κ : Type} [SeriesKey κ] (steps : List (Feed κ)),
      (after d rule steps).Accounted ∧
      (after d rule steps).finish.Balanced ∧
      ∀ (time : Option Stamp) (key : Reading → κ) (log : Source) (n : Nat),
        ((after d rule steps).diskLog time key log).1 = .ok n →
          ((after d rule steps).diskLog time key log).2.readings =
            (after d rule steps).readings + n) ∧
    ∀ steps : List (Feed Date), (after d rule steps).finishContiguous.Balanced := by
  constructor
  · intro κ _ steps
    have haccounted := accounted_after d rule steps
    exact ⟨haccounted, haccounted.balanced_finish, fun _ _ _ _ h => readings_diskLog h⟩
  · intro steps
    exact (accounted_after d rule steps).balanced_finishContiguous

/-- A disk log that breaks off in its last line, a node without logs and a
    network log; then a log with a reading that is not understood. -/
theorem readings_accounted_broken_log :
    let steps : List (Feed Unit) := [
      .disk (fun _ => ()) ⟨Text.encodeUtf8 "r, a, 10\nsetup\nw, b, 5\nr, 7".toList, some .noSpace⟩,
      .node () [],
      .network () (.ofText "10 sec 2 Gbits/sec\n")]
    let s := after .comma .standard steps
    let log : Source := .ofText "r, a, 1\nrw, b, 2\n"
    s.Accounted ∧
      (∃ report, s.finish.summarize [.ofNat 50] = .ok report ∧
        (report.series.map (·.count)).sum = report.readings) ∧
      (s.diskLog none (fun _ => ()) log).1 = .ok 2 ∧
      (s.diskLog none (fun _ => ()) log).2.readings = s.readings + 2 := by
  intro steps s log
  obtain ⟨haccounted, hbalanced, hcounted⟩ := (readings_accounted .comma .standard).1 steps
  have htrust : s.finish.isTrustworthy = true := by decide +kernel
  have hfound : (s.diskLog none (fun _ => ()) log).1 = .ok 2 := by decide +kernel
  obtain ⟨report, hreport⟩ := hbalanced.exists_report [.ofNat 50] (by decide +kernel)
  exact ⟨haccounted, ⟨report, hreport, hbalanced.sum_count htrust _ _ hreport⟩, hfound,
    hcounted _ _ _ _ hfound⟩

end Session

end Throughput
