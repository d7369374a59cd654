/-
  Throughput/Proofs/Session/Withholding.lean
  ==========================================
  **What a withheld result shows.**  Once a reading was not recognized, a report shows
  how many readings there were and what the unrecognized ones were cut into, and
  nothing else.  Two sessions that agree on these cannot be told apart by any of their
  results, whatever they measured and under whatever keys, and whatever ranks are asked
  for (`withheld_reveals_nothing`).

  The unrecognized readings are the candidate lines that were not recognized, in the
  order of the steps, so a report lists all of them or is not withheld.
-/
import Throughput.Analysis.File
import Throughput.Analysis.Markdown
import Throughput.Proofs.Report.Summaries
import Throughput.Proofs.Session.Finishing

namespace Throughput

variable {κ : Type}

namespace Session

variable [SeriesKey κ]

/-! ### Unrecognized fields -/

/-- What the unrecognized readings were cut into. -/
def unrecognizedFields (s : Session κ) : List (List String) :=
  s.unrecognized.toList.map Reading.rawFields

theorem unrecognizedFields_after_ne_nil_iff {d : Delimiter} {rule : BandwidthRule}
    {steps : List (Feed κ)} : (after d rule steps).unrecognizedFields ≠ [] ↔
      ∃ r ∈ steps.flatMap (Feed.candidates d), r.isRecognized = false := by
  rw [unrecognizedFields, unrecognized_after]
  generalize steps.flatMap (Feed.candidates d) = candidates
  simp

namespace Finishes

variable {s : Session κ} {c : Collection κ}

theorem isTrustworthy_iff (h : s.Finishes c) :
    c.isTrustworthy = true ↔ s.unrecognizedFields = [] := by
  rw [Collection.isTrustworthy, h.unrecognized_eq, List.isEmpty_iff, unrecognizedFields,
    List.map_eq_nil_iff]

/-- An untrustworthy session has one report, whatever the ranks. -/
theorem summarize_eq (h : s.Finishes c) (hfields : s.unrecognizedFields ≠ [])
    (ranks : List Binary64) :
    c.summarize ranks = .ok ⟨s.readings, s.unrecognizedFields, true, []⟩ := by
  have hnot : c.isTrustworthy = false := by
    rw [← Bool.not_eq_true, h.isTrustworthy_iff]
    exact hfields
  rw [Collection.summarize_of_not_isTrustworthy hnot, Collection.withheldReport, h.readings_eq,
    h.unrecognized_eq]
  rfl

theorem unrecognized_of_summarize (h : s.Finishes c) {ranks : List Binary64} {report : Report κ}
    (hreport : c.summarize ranks = .ok report) : report.unrecognized = s.unrecognizedFields := by
  rcases Collection.summarize_eq_ok_iff.1 hreport with ⟨htrust, series, -, rfl⟩ | ⟨-, rfl⟩
  · exact (h.isTrustworthy_iff.1 htrust).symm
  · rw [Collection.withheldReport, h.unrecognized_eq]
    rfl

end Finishes

end Session

/-! ### Results that look the same -/

/-- Two reports that look the same in every form they are given. -/
structure Report.LooksLike {κ₁ κ₂ : Type} [SeriesKey κ₁] [SeriesKey κ₂] (report₁ : Report κ₁)
    (report₂ : Report κ₂) : Prop where
  json_eq : Json.ofReport report₁ = Json.ofReport report₂
  plainText_eq : ∀ title generated, (Analysis.ofReport title generated report₁).plainText =
    (Analysis.ofReport title generated report₂).plainText
  markdown_eq : ∀ title generated, (Analysis.ofReport title generated report₁).markdown =
    (Analysis.ofReport title generated report₂).markdown
  fileText_eq : ∀ title generated, (Analysis.ofReport title generated report₁).fileText =
    (Analysis.ofReport title generated report₂).fileText

/-- Without series the kind of key does not show. -/
theorem Report.looksLike_of_no_series {κ₁ κ₂ : Type} [SeriesKey κ₁] [SeriesKey κ₂]
    (readings : Nat) (unrecognized : List (List String)) (withheld : Bool) :
    (⟨readings, unrecognized, withheld, []⟩ : Report κ₁).LooksLike
      (⟨readings, unrecognized, withheld, []⟩ : Report κ₂) := by
  constructor
  · rfl
  · intro title generated
    rfl
  · intro title generated
    rfl
  · intro title generated
    rfl

namespace Session

/-- **Withheld results reveal nothing.**  Of two sessions with the same number of readings
    and the same unrecognized fields, at least one, every report is the same, has no
    series, and looks the same in every form; samples, keys, metrics and ranks have no
    influence.  A report is withheld exactly if some candidate line was not recognized,
    and it lists the fields of every such line in the order they were read. -/
theorem withheld_reveals_nothing :
    (∀ {κ₁ κ₂ : Type} [SeriesKey κ₁] [SeriesKey κ₂] (s₁ : Session κ₁) (s₂ : Session κ₂)
        (c₁ : Collection κ₁) (c₂ : Collection κ₂), s₁.Finishes c₁ → s₂.Finishes c₂ →
      s₁.unrecognizedFields = s₂.unrecognizedFields → s₁.unrecognizedFields ≠ [] →
      s₁.readings = s₂.readings → ∀ ranks₁ ranks₂ : List Binary64, ∃ readings fields,
        c₁.summarize ranks₁ = .ok ⟨readings, fields, true, []⟩ ∧
        c₂.summarize ranks₂ = .ok ⟨readings, fields, true, []⟩ ∧
        (⟨readings, fields, true, []⟩ : Report κ₁).LooksLike
          (⟨readings, fields, true, []⟩ : Report κ₂)) ∧
    ∀ {κ : Type} [SeriesKey κ] (d : Delimiter) (rule : BandwidthRule) (steps : List (Feed κ))
        (c : Collection κ), (after d rule steps).Finishes c →
      ∀ ranks report, c.summarize ranks = .ok report →
        (report.withheld = true ↔
          ∃ r ∈ steps.flatMap (Feed.candidates d), r.isRecognized = false) ∧
        report.unrecognized = ((steps.flatMap (Feed.candidates d)).filter
          (!·.isRecognized)).map Reading.rawFields := by
  constructor
  · intro κ₁ κ₂ _ _ s₁ s₂ c₁ c₂ h₁ h₂ hfields hne hreadings ranks₁ ranks₂
    refine ⟨s₁.readings, s₁.unrecognizedFields, h₁.summarize_eq hne ranks₁, ?_,
      Report.looksLike_of_no_series _ _ _⟩
    rw [hfields] at hne ⊢
    rw [hreadings]
    exact h₂.summarize_eq hne ranks₂
  · intro κ _ d rule steps c h ranks report hreport
    constructor
    · rw [Collection.withheld_of_summarize hreport, Bool.not_eq_true', ← Bool.not_eq_true,
        h.isTrustworthy_iff]
      exact unrecognizedFields_after_ne_nil_iff
    · rw [h.unrecognized_of_summarize hreport, unrecognizedFields, unrecognized_after]

/-- Labels and days as keys, fields between commas and blanks, a log and a line, and ranks
    of which one is none. -/
theorem withheld_reveals_nothing_labels_days :
    let labels : List (Feed String) := [.disk (·.signature) (.ofText "r, a, 10\nrw\n")]
    let days : List (Feed Date) := [.line (fun _ => ⟨2016, 2, 28, by decide⟩) "rw".toList,
      .network ⟨2016, 3, 1, by decide⟩ (.ofText "10 sec 2 Gbits/sec\n")]
    let c₁ := (after .comma .standard labels).finish
    let c₂ := (after .whitespace .standard days).finishContiguous
    (∃ readings fields, c₁.summarize [.ofNat 50] = .ok ⟨readings, fields, true, []⟩ ∧
      c₂.summarize [.nan false] = .ok ⟨readings, fields, true, []⟩ ∧
      (⟨readings, fields, true, []⟩ : Report String).LooksLike
        (⟨readings, fields, true, []⟩ : Report Date)) ∧
    ∃ report, c₁.summarize [.ofNat 50] = .ok report ∧ report.withheld = true ∧
      report.unrecognized = [["rw"]] := by
  intro labels days c₁ c₂
  obtain ⟨hsame, hlisted⟩ := withheld_reveals_nothing
  have hplain := Finishes.plainly (after .comma .standard labels)
  have hdaily := Finishes.daily (after .whitespace .standard days)
  obtain ⟨readings, fields, h₁, h₂, hlooks⟩ := hsame _ _ _ _ hplain hdaily
    (by decide +kernel) (by decide +kernel) (by decide +kernel) [.ofNat 50] [.nan false]
  refine ⟨⟨readings, fields, h₁, h₂, hlooks⟩, _, h₁, ?_, ?_⟩
  · apply (hlisted _ _ _ _ hplain _ _ h₁).1.2
    decide +kernel
  · rw [(hlisted _ _ _ _ hplain _ _ h₁).2]
    decide +kernel

end Session

end Throughput
