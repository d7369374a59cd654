/-
  Throughput/Proofs/Session/Finishing.lean
  ========================================
  **Finished sessions.**  A session is finished to the groups it has or, if its keys
  are days, to groups without missing days (`Finishes`).  Both ways keep the readings,
  recognized or not, and both arrange what the steps of the session observed
  (`isGrouping_after`, `isArrangement_after_daily`).
-/
import Throughput.Proofs.Series.Unions
import Throughput.Proofs.Session.Findings

namespace Throughput.Session

variable {κ : Type} [SeriesKey κ]

/-- What a session can be finished to. -/
inductive Finishes : {κ : Type} → [SeriesKey κ] → Session κ → Collection κ → Prop where
  | plainly {κ : Type} [SeriesKey κ] (s : Session κ) : Finishes s s.finish
  | daily (s : Session Date) : Finishes s s.finishContiguous

namespace Finishes

variable {s : Session κ} {c : Collection κ}

theorem readings_eq (h : s.Finishes c) : c.readings = s.readings := by
  cases h <;> rfl

theorem unrecognized_eq (h : s.Finishes c) : c.unrecognized = s.unrecognized.toList := by
  cases h <;> rfl

end Finishes

/-! ### What is arranged -/

section

variable (d : Delimiter) (rule : BandwidthRule)

/-- The groups of a session arrange what its steps observed. -/
theorem isGrouping_after [DecidableEq κ] (steps : List (Feed κ)) :
    IsGrouping ((steps.flatMap (Feed.findings d rule)).filterMap Finding.observation?)
      (after d rule steps).finish.groups := by
  rw [after_eq_noteAll, finish, collector_noteAll]
  exact Collector.isGrouping_pushAll _

theorem isArrangement_after_daily (steps : List (Feed Date)) :
    IsArrangement ((steps.flatMap (Feed.findings d rule)).filterMap Finding.observation?)
      (after d rule steps).finishContiguous.groups := by
  have hgrouping := isGrouping_after d rule steps
  exact (Collector.isDaily_of_isGrouping hgrouping).isArrangement hgrouping

end

/-- Points are samples, in whatever way a session is finished. -/
theorem Finishes.values_subperm_samples {d : Delimiter} {rule : BandwidthRule}
    {steps : List (Feed κ)} {c : Collection κ} (h : (after d rule steps).Finishes c) :
    ∀ g ∈ c.groups, (g.points.map (·.value)).Subperm g.samples := by
  intro g hg
  generalize hs : after d rule steps = s at h
  cases h with
  | plainly =>
    classical
    subst hs
    exact (isGrouping_after d rule steps).values_subperm_samples hg
  | daily =>
    subst hs
    exact (isArrangement_after_daily d rule steps).values_subperm_samples hg

end Throughput.Session
