/-
  Throughput/Proofs/Session/Reordering.lean
  =========================================
  **The order of logs does not matter.**  Steps taken in another order leave
  groups with the same tags, whose samples came in another order.  Statistics
  depend on the samples as a multiset only, so the two reports agree in every
  series and list the same unrecognized readings (`summarize_same_of_perm`).
  The simulation runs along the model: buffers, groups, gaps, reports.
-/
import Throughput.Proofs.Report.Summaries
import Throughput.Proofs.Session.Findings

namespace Throughput

variable {κ : Type}

/-! ### What may differ -/

def Buffer.Reordered (b₁ b₂ : Buffer) : Prop := b₁.samples.toList.Perm b₂.samples.toList

structure Group.Reordered (g₁ g₂ : Group κ) : Prop where
  metric_eq : g₁.metric = g₂.metric
  key_eq : g₁.key = g₂.key
  samples_perm : g₁.samples.Perm g₂.samples

structure Collection.Reordered (c₁ c₂ : Collection κ) : Prop where
  readings_eq : c₁.readings = c₂.readings
  unrecognized_perm : c₁.unrecognized.Perm c₂.unrecognized
  groups : List.Forall₂ Group.Reordered c₁.groups c₂.groups

/-- Reports that differ at most in the order of their unrecognized readings. -/
structure Report.Reordered (r₁ r₂ : Report κ) : Prop where
  readings_eq : r₁.readings = r₂.readings
  withheld_eq : r₁.withheld = r₂.withheld
  series_eq : r₁.series = r₂.series
  unrecognized_perm : r₁.unrecognized.Perm r₂.unrecognized

/-- The same report up to the order of unrecognized readings, or the same failure. -/
inductive Report.SameOutcome : Except Failure (Report κ) → Except Failure (Report κ) → Prop where
  | report {r₁ r₂ : Report κ} (h : r₁.Reordered r₂) : SameOutcome (.ok r₁) (.ok r₂)
  | failure (e : Failure) : SameOutcome (.error e) (.error e)

/-! ### Buffers and groups -/

theorem Buffer.reordered_refl (b : Buffer) : b.Reordered b := List.Perm.refl _

theorem Buffer.reordered_addAll (b : Buffer) {os₁ os₂ : List (Observation κ)}
    (h : os₁.Perm os₂) : (b.addAll os₁).Reordered (b.addAll os₂) := by
  rw [Reordered, samples_addAll, samples_addAll]
  exact (h.map _).append_left _

theorem Group.reordered_refl (g : Group κ) : g.Reordered g := ⟨rfl, rfl, List.Perm.refl _⟩

theorem Group.Reordered.summarize_eq {g₁ g₂ : Group κ} (h : g₁.Reordered g₂)
    (ranks : List Binary64) : g₁.summarize ranks = g₂.summarize ranks :=
  Group.summarize_congr h.metric_eq h.key_eq h.samples_perm ranks

namespace Collector

theorem reordered_pushAll [SeriesKey κ] (c : Collector κ) {os₁ os₂ : List (Observation κ)}
    (h : os₁.Perm os₂) :
    List.Forall₂ (fun e₁ e₂ => e₁.1 = e₂.1 ∧ e₁.2.Reordered e₂.2)
      (c.pushAll os₁).buffers (c.pushAll os₂).buffers := by
  classical
  refine forall₂_of_buffer? (c.pushAll os₁).ascending (c.pushAll os₂).ascending fun tag => ?_
  -- a tag that no observation has keeps its buffer; any other gets them in some order
  have hfilter := h.filter fun o => o.tag = tag
  rw [buffer?_pushAll, buffer?_pushAll]
  by_cases hnil : os₁.filter (fun o => o.tag = tag) = []
  · have hnil' : os₂.filter (fun o => o.tag = tag) = [] := by
      rw [hnil] at hfilter
      exact List.nil_perm.1 hfilter
    rw [if_pos hnil, if_pos hnil']
    cases buffer? tag c.buffers with
    | none => exact .none
    | some b => exact .some b.reordered_refl
  · have hnil' : os₂.filter (fun o => o.tag = tag) ≠ [] := by
      intro hnil'
      rw [hnil'] at hfilter
      exact hnil (List.perm_nil.1 hfilter)
    rw [if_neg hnil, if_neg hnil']
    exact .some (Buffer.reordered_addAll _ hfilter)

theorem reordered_finish [SeriesKey κ] {c₁ c₂ : Collector κ}
    (h : List.Forall₂ (fun e₁ e₂ => e₁.1 = e₂.1 ∧ e₁.2.Reordered e₂.2) c₁.buffers c₂.buffers) :
    List.Forall₂ Group.Reordered c₁.finish c₂.finish := by
  rw [finish, finish, List.forall₂_map_left_iff, List.forall₂_map_right_iff]
  refine h.imp ?_
  rintro ⟨tag₁, b₁⟩ ⟨tag₂, b₂⟩ ⟨htag, hb⟩
  cases htag
  exact ⟨rfl, rfl, hb⟩

theorem reordered_fillGaps {gs₁ gs₂ : List (Group Date)}
    (h : List.Forall₂ Group.Reordered gs₁ gs₂) :
    List.Forall₂ Group.Reordered (fillGaps gs₁) (fillGaps gs₂) := by
  induction h with
  | nil => exact .nil
  | cons hfirst hrest ih =>
    cases hrest with
    | nil => exact .cons hfirst .nil
    | cons hsecond hrest =>
      simp only [fillGaps, hfirst.metric_eq, hfirst.key_eq, hsecond.metric_eq, hsecond.key_eq]
      refine .cons hfirst (List.rel_append ?_ ih)
      exact List.forall₂_same.2 fun g _ => g.reordered_refl

end Collector

/-! ### Sessions -/

namespace Session

variable [SeriesKey κ]

theorem unrecognized_noteAll_perm (s : Session κ) {fs₁ fs₂ : List (Finding κ)}
    (h : fs₁.Perm fs₂) :
    (s.noteAll fs₁).unrecognized.toList.Perm (s.noteAll fs₂).unrecognized.toList := by
  rw [unrecognized_noteAll, unrecognized_noteAll]
  exact (h.filterMap _).append_left _

theorem groups_noteAll_reordered (s : Session κ) {fs₁ fs₂ : List (Finding κ)}
    (h : fs₁.Perm fs₂) :
    List.Forall₂ Group.Reordered (s.noteAll fs₁).collector.finish
      (s.noteAll fs₂).collector.finish := by
  refine Collector.reordered_finish ?_
  rw [collector_noteAll, collector_noteAll]
  exact Collector.reordered_pushAll _ (h.filterMap _)

theorem finish_noteAll_reordered (s : Session κ) {fs₁ fs₂ : List (Finding κ)}
    (h : fs₁.Perm fs₂) : (s.noteAll fs₁).finish.Reordered (s.noteAll fs₂).finish where
  readings_eq := by simp only [finish, readings_noteAll, h.length_eq]
  unrecognized_perm := s.unrecognized_noteAll_perm h
  groups := s.groups_noteAll_reordered h

theorem finishContiguous_noteAll_reordered (s : Session Date) {fs₁ fs₂ : List (Finding Date)}
    (h : fs₁.Perm fs₂) :
    (s.noteAll fs₁).finishContiguous.Reordered (s.noteAll fs₂).finishContiguous where
  readings_eq := by simp only [finishContiguous, readings_noteAll, h.length_eq]
  unrecognized_perm := s.unrecognized_noteAll_perm h
  groups := Collector.reordered_fillGaps (s.groups_noteAll_reordered h)

end Session

/-! ### Reports -/

theorem Collection.Reordered.summarize {c₁ c₂ : Collection κ} (h : c₁.Reordered c₂)
    (ranks : List Binary64) :
    Report.SameOutcome (c₁.summarize ranks) (c₂.summarize ranks) := by
  have htrust : c₁.isTrustworthy = c₂.isTrustworthy := h.unrecognized_perm.isEmpty_eq
  have hseries : c₁.groups.mapM (Group.summarize ranks) =
      c₂.groups.mapM (Group.summarize ranks) :=
    mapM_congr_forall₂ (h.groups.imp fun _ _ hg => hg.summarize_eq ranks)
  have hfields := h.unrecognized_perm.map Reading.rawFields
  unfold Collection.summarize
  rw [htrust, hseries]
  split
  · cases c₂.groups.mapM (Group.summarize ranks) with
    | error e => exact .failure e
    | ok series => exact .report ⟨h.readings_eq, rfl, rfl, hfields⟩
  · exact .report ⟨h.readings_eq, rfl, rfl, hfields⟩

namespace Session

/-- **The order of files, runs and lines never shows in a statistic.**  Permuted
    steps give the same report up to the order of unrecognized readings, or the
    same failure, with gaps filled or not. -/
theorem summarize_same_of_perm (d : Delimiter) (rule : BandwidthRule) (ranks : List Binary64) :
    (∀ {κ : Type} [SeriesKey κ] (steps₁ steps₂ : List (Feed κ)), steps₁.Perm steps₂ →
      Report.SameOutcome ((after d rule steps₁).finish.summarize ranks)
        ((after d rule steps₂).finish.summarize ranks)) ∧
    ∀ steps₁ steps₂ : List (Feed Date), steps₁.Perm steps₂ →
      Report.SameOutcome ((after d rule steps₁).finishContiguous.summarize ranks)
        ((after d rule steps₂).finishContiguous.summarize ranks) := by
  constructor
  · intro κ _ steps₁ steps₂ h
    rw [after_eq_noteAll, after_eq_noteAll]
    exact (finish_noteAll_reordered _ (h.flatMap_right _)).summarize ranks
  · intro steps₁ steps₂ h
    rw [after_eq_noteAll, after_eq_noteAll]
    exact (finishContiguous_noteAll_reordered _ (h.flatMap_right _)).summarize ranks

/-- A disk log, a run two days later and a network log, taken in backwards. -/
theorem summarize_same_of_perm_backwards :
    let first : Date := ⟨2015, 2, 27, by decide⟩
    let last : Date := ⟨2015, 3, 1, by decide⟩
    let steps : List (Feed Date) := [
      .disk (fun _ => first) (.ofText "r, a, -0\nr, b, 0\nw, b, 5\n"),
      .daily ⟨"7", last.atClock 8 30 0⟩ "r, c, 2.5\n",
      .network first (.ofText "10 sec 2 Gbits/sec\n")]
    let s₁ := after .comma .standard steps
    let s₂ := after .comma .standard steps.reverse
    s₁.finish.groups.length = 4 ∧ s₁.finishContiguous.isTrustworthy = true ∧
      (∃ report, s₁.finishContiguous.summarize [.ofNat 50] = .ok report) ∧
      Report.SameOutcome (s₁.finish.summarize [.ofNat 50]) (s₂.finish.summarize [.ofNat 50]) ∧
      Report.SameOutcome (s₁.finishContiguous.summarize [.ofNat 50])
        (s₂.finishContiguous.summarize [.ofNat 50]) := by
  intro first last steps s₁ s₂
  obtain ⟨hfinish, hcontiguous⟩ := summarize_same_of_perm .comma .standard [.ofNat 50]
  have hperm : steps.Perm steps.reverse := (List.reverse_perm steps).symm
  have hreport : ∃ report, s₁.finishContiguous.summarize [.ofNat 50] = .ok report :=
    s₁.finishContiguous.exists_summarize (by decide +kernel)
  have hgroups : s₁.finish.groups.length = 4 := by decide +kernel
  have htrust : s₁.finishContiguous.isTrustworthy = true := by decide +kernel
  exact ⟨hgroups, htrust, hreport, hfinish steps _ hperm, hcontiguous steps _ hperm⟩

end Session

end Throughput
