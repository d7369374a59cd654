/-
  Throughput/Proofs/Report/Summaries.lean
  =======================================
  **Summarizing.**  A summary exists for every group once all ranks lie between
  0 and 100.  It counts the samples of its group, and depends on them only as a
  multiset: sorting by the total order leaves one list for each multiset of bit
  patterns (`sorted_eq_of_perm`), and everything else is computed from that.  What
  statistics say of their samples is `Statistics.Describes`.
-/
import Mathlib.Algebra.Ring.Nat
import Mathlib.Data.List.Forall2
import Mathlib.Data.List.Pairwise
import Throughput.Proofs.Failure.Outcomes
import Throughput.Report

namespace Throughput

/-! ### Statistics -/

namespace Binary64

theorem sortsBefore_trans (x y z : Binary64) (hxy : sortsBefore x y = true)
    (hyz : sortsBefore y z = true) : sortsBefore x z = true := by
  simp only [sortsBefore, decide_eq_true_eq] at *
  omega

theorem sortsBefore_refl (x : Binary64) : sortsBefore x x = true :=
  decide_eq_true (Int.le_refl _)

theorem sortsBefore_total (x y : Binary64) : (sortsBefore x y || sortsBefore y x) = true := by
  simp only [sortsBefore, Bool.or_eq_true, decide_eq_true_eq]
  omega

theorem eq_of_sortsBefore {x y : Binary64} (hxy : sortsBefore x y = true)
    (hyx : sortsBefore y x = true) : x = y := by
  simp only [sortsBefore, decide_eq_true_eq] at hxy hyx
  exact totalKey_injective (Int.le_antisymm hxy hyx)

end Binary64

namespace Samples

theorem sorted_perm (samples : List Binary64) : (sorted samples).Perm samples :=
  List.mergeSort_perm samples _

theorem pairwise_sorted (samples : List Binary64) :
    (sorted samples).Pairwise fun x y => Binary64.sortsBefore x y = true :=
  List.pairwise_mergeSort Binary64.sortsBefore_trans Binary64.sortsBefore_total samples

theorem sorted_eq_of_perm {xs ys : List Binary64} (h : xs.Perm ys) : sorted xs = sorted ys := by
  have hperm : (sorted xs).Perm (sorted ys) :=
    ((sorted_perm xs).trans h).trans (sorted_perm ys).symm
  apply hperm.eq_of_pairwise _ (pairwise_sorted xs) (pairwise_sorted ys)
  intro x y _ _
  exact Binary64.eq_of_sortsBefore

theorem exists_sorted_eq_cons {samples : List Binary64} (h : samples ≠ []) :
    ∃ first rest, sorted samples = first :: rest := by
  have hsorted : sorted samples ≠ [] := by
    rwa [← List.length_pos_iff, (sorted_perm samples).length_eq, List.length_pos_iff]
  exact List.exists_cons_of_ne_nil hsorted

end Samples

namespace Ascending

theorem toList_ne_nil {α : Type} (s : Ascending α) : s.toList ≠ [] := List.cons_ne_nil _ _

theorem percentile_of_isRank (s : Ascending Binary64) {rank : Binary64}
    (hrank : Quantity.isRank rank = true) : s.percentile rank = .ok (s.valueAtRank rank) := by
  rw [percentile, checkRank, if_pos hrank]
  rfl

theorem exists_percentiles (s : Ascending Binary64) {ranks : List Binary64}
    (hranks : ∀ rank ∈ ranks, Quantity.isRank rank = true) :
    ∃ ps, s.percentiles ranks = .ok ps := by
  refine exists_mapM_eq_ok fun rank hrank => ⟨⟨rank, s.valueAtRank rank⟩, ?_⟩
  rw [percentile_of_isRank s (hranks rank hrank)]
  rfl

theorem summarize_eq_ok_iff {s : Ascending Binary64} {ranks : List Binary64}
    {t : Statistics Binary64} : s.summarize ranks = .ok t ↔
      ∃ ps, s.percentiles ranks = .ok ps ∧
        t = ⟨s.count, s.least, s.greatest, s.mean, s.valueAtRank (.ofNat 50), s.deviation, ps⟩ := by
  rw [summarize, bind_pure_eq_map, map_eq_ok_iff]

end Ascending

namespace Statistics

theorem ofSamples_eq_of_perm {xs ys : List Binary64} (h : xs.Perm ys) (ranks : List Binary64) :
    ofSamples xs ranks = ofSamples ys ranks := by
  simp only [ofSamples, Ascending.ofSamples, Samples.sorted_eq_of_perm h]

theorem ofSamples_eq_ok_iff {samples ranks : List Binary64} {t : Statistics Binary64} :
    ofSamples samples ranks = .ok t ↔
      ∃ s : Ascending Binary64, s.toList = Samples.sorted samples ∧ s.summarize ranks = .ok t := by
  rw [ofSamples, Ascending.ofSamples]
  cases Samples.sorted samples with
  | nil =>
    constructor
    · intro h
      cases h
    · rintro ⟨s, hs, -⟩
      cases hs
  | cons first rest =>
    constructor
    · intro h
      exact ⟨⟨first, rest⟩, rfl, h⟩
    · rintro ⟨⟨first', rest'⟩, hs, h⟩
      cases hs
      exact h

/-- Statistics count the samples they are made of. -/
theorem count_of_ofSamples {samples ranks : List Binary64} {s : Statistics Binary64}
    (h : ofSamples samples ranks = .ok s) : s.count = samples.length := by
  obtain ⟨ascending, hsorted, hsummary⟩ := ofSamples_eq_ok_iff.1 h
  obtain ⟨ps, -, rfl⟩ := Ascending.summarize_eq_ok_iff.1 hsummary
  rw [← (Samples.sorted_perm samples).length_eq, ← hsorted]
  rfl

/-- There are no statistics of nothing. -/
theorem ne_nil_of_ofSamples {samples ranks : List Binary64} {t : Statistics Binary64}
    (h : ofSamples samples ranks = .ok t) : samples ≠ [] := by
  rintro rfl
  obtain ⟨ascending, hsorted, -⟩ := ofSamples_eq_ok_iff.1 h
  rw [(Samples.sorted_perm []).eq_nil] at hsorted
  cases hsorted

theorem exists_ofSamples {samples ranks : List Binary64} (h : samples ≠ [])
    (hranks : ∀ rank ∈ ranks, Quantity.isRank rank = true) :
    ∃ s, ofSamples samples ranks = .ok s := by
  obtain ⟨first, rest, hcons⟩ := Samples.exists_sorted_eq_cons h
  obtain ⟨ps, hps⟩ := Ascending.exists_percentiles ⟨first, rest⟩ hranks
  have hsummary := Ascending.summarize_eq_ok_iff.2 ⟨ps, hps, rfl⟩
  exact ⟨_, ofSamples_eq_ok_iff.2 ⟨⟨first, rest⟩, hcons.symm, hsummary⟩⟩

end Statistics

/-! ### Statistics of samples -/

namespace Ascending

variable {s : Ascending Binary64} {ranks : List Binary64}

theorem greatest_eq_getLast (s : Ascending Binary64) :
    s.greatest = s.toList.getLast s.toList_ne_nil := by
  have hlast : some s.greatest = s.toList.getLast? := by
    rw [toList, List.getLast?_cons]
    rfl
  rw [List.getLast?_eq_some_getLast s.toList_ne_nil] at hlast
  exact Option.some_inj.1 hlast

theorem least_sortsBefore (h : s.toList.Pairwise fun x y => Binary64.sortsBefore x y = true) :
    ∀ x ∈ s.toList, Binary64.sortsBefore s.least x = true := by
  intro x hx
  rcases List.mem_cons.1 hx with rfl | hx
  · exact Binary64.sortsBefore_refl _
  · exact (List.pairwise_cons.1 h).1 x hx

theorem sortsBefore_greatest (h : s.toList.Pairwise fun x y => Binary64.sortsBefore x y = true) :
    ∀ x ∈ s.toList, Binary64.sortsBefore x s.greatest = true := by
  intro x hx
  rw [greatest_eq_getLast]
  exact h.rel_getLast_of_rel_getLast_getLast hx (Binary64.sortsBefore_refl _)

/-- Percentiles stand in the order their ranks were asked for. -/
theorem ranks_of_percentiles {ps : List (Percentile Binary64)} (h : s.percentiles ranks = .ok ps) :
    ps.map (·.rank) = ranks := by
  rw [← List.forall₂_eq_eq_eq, List.forall₂_map_left_iff]
  apply (mapM_eq_ok_iff.1 h).flip.imp
  intro p rank hrank
  cases hvalue : s.percentile rank with
  | error e =>
    rw [hvalue] at hrank
    cases hrank
  | ok value =>
    rw [hvalue] at hrank
    cases hrank
    rfl

end Ascending

/-- Statistics that fit samples and the ranks asked for. -/
structure Statistics.Describes (t : Statistics Binary64) (ranks samples : List Binary64) :
    Prop where
  of_samples : Statistics.ofSamples samples ranks = .ok t
  count_eq : t.count = samples.length
  ranks_eq : t.percentiles.map (·.rank) = ranks
  least_mem : t.least ∈ samples
  least_sortsBefore : ∀ x ∈ samples, Binary64.sortsBefore t.least x = true
  greatest_mem : t.greatest ∈ samples
  sortsBefore_greatest : ∀ x ∈ samples, Binary64.sortsBefore x t.greatest = true

theorem Statistics.describes_of_ofSamples {samples ranks : List Binary64}
    {t : Statistics Binary64} (h : ofSamples samples ranks = .ok t) :
    t.Describes ranks samples := by
  obtain ⟨s, hsorted, hsummary⟩ := ofSamples_eq_ok_iff.1 h
  obtain ⟨ps, hps, rfl⟩ := Ascending.summarize_eq_ok_iff.1 hsummary
  have hpairwise := Samples.pairwise_sorted samples
  have hmem : ∀ x, x ∈ s.toList ↔ x ∈ samples := by
    intro x
    rw [hsorted]
    exact (Samples.sorted_perm samples).mem_iff
  rw [← hsorted] at hpairwise
  constructor
  case of_samples => exact h
  case count_eq => exact count_of_ofSamples h
  case ranks_eq => exact Ascending.ranks_of_percentiles hps
  case least_mem => exact (hmem _).1 List.mem_cons_self
  case least_sortsBefore =>
    intro x hx
    exact Ascending.least_sortsBefore hpairwise x ((hmem x).2 hx)
  case greatest_mem =>
    apply (hmem _).1
    change s.greatest ∈ s.toList
    rw [Ascending.greatest_eq_getLast]
    exact List.getLast_mem _
  case sortsBefore_greatest =>
    intro x hx
    exact Ascending.sortsBefore_greatest hpairwise x ((hmem x).2 hx)

/-! ### Groups -/

namespace Group

variable {κ : Type}

theorem summarize_congr {g h : Group κ} (hmetric : g.metric = h.metric) (hkey : g.key = h.key)
    (hsamples : g.samples.Perm h.samples) (ranks : List Binary64) :
    g.summarize ranks = h.summarize ranks := by
  have hempty : g.isEmpty = h.isEmpty := by
    rw [isEmpty, isEmpty, Bool.eq_iff_iff, List.isEmpty_iff_length_eq_zero,
      List.isEmpty_iff_length_eq_zero, hsamples.length_eq]
  simp only [summarize, hempty, hmetric, hkey, count, hsamples.length_eq,
    Statistics.ofSamples_eq_of_perm hsamples]

theorem summarize_eq_ok_iff {g : Group κ} {ranks : List Binary64} {summary : GroupSummary κ} :
    g.summarize ranks = .ok summary ↔
      (g.samples = [] ∧ summary = ⟨g.metric, g.key, 0, none⟩) ∨
      ∃ t, Statistics.ofSamples g.samples ranks = .ok t ∧
        summary = ⟨g.metric, g.key, g.count, some t⟩ := by
  unfold summarize
  split
  next hempty =>
    have hnil : g.samples = [] := List.isEmpty_iff.1 hempty
    have hnone : ∀ t, Statistics.ofSamples [] ranks ≠ .ok t := by
      intro t h
      exact Statistics.ne_nil_of_ofSamples h rfl
    simp [hnil, hnone, eq_comm]
  next hempty =>
    have hne : g.samples ≠ [] := by simpa [isEmpty] using hempty
    rw [bind_pure_eq_map, map_eq_ok_iff]
    simp [hne]

theorem exists_summarize (g : Group κ) {ranks : List Binary64}
    (hranks : ∀ rank ∈ ranks, Quantity.isRank rank = true) :
    ∃ summary, g.summarize ranks = .ok summary := by
  by_cases hnil : g.samples = []
  · exact ⟨_, summarize_eq_ok_iff.2 (.inl ⟨hnil, rfl⟩)⟩
  · obtain ⟨t, ht⟩ := Statistics.exists_ofSamples hnil hranks
    exact ⟨_, summarize_eq_ok_iff.2 (.inr ⟨t, ht, rfl⟩)⟩

theorem count_of_summarize {g : Group κ} {ranks : List Binary64} {summary : GroupSummary κ}
    (h : g.summarize ranks = .ok summary) : summary.count = g.count := by
  rcases summarize_eq_ok_iff.1 h with ⟨hnil, rfl⟩ | ⟨t, -, rfl⟩
  · rw [count, hnil]
    rfl
  · rfl

/-- The statistics of a group count what the group counts. -/
theorem count_of_mem_statistics {g : Group κ} {ranks : List Binary64} {summary : GroupSummary κ}
    (h : g.summarize ranks = .ok summary) {t : Statistics Binary64} (ht : t ∈ summary.statistics) :
    t.count = g.count := by
  rcases summarize_eq_ok_iff.1 h with ⟨-, rfl⟩ | ⟨t', ht', rfl⟩
  · cases ht
  · cases ht
    exact Statistics.count_of_ofSamples ht'

end Group

/-! ### Collections -/

namespace Collection

variable {κ : Type}

/-- The report that withholds all statistics. -/
def withheldReport (c : Collection κ) : Report κ :=
  ⟨c.readings, c.unrecognized.map Reading.rawFields, true, []⟩

theorem summarize_of_isTrustworthy {c : Collection κ} (h : c.isTrustworthy = true)
    (ranks : List Binary64) :
    c.summarize ranks =
      (c.groups.mapM (Group.summarize ranks)).map (⟨c.readings, [], false, ·⟩) := by
  have hnil : c.unrecognized = [] := List.isEmpty_iff.1 h
  rw [summarize, if_pos h, hnil]
  rfl

theorem summarize_of_not_isTrustworthy {c : Collection κ} (h : c.isTrustworthy = false)
    (ranks : List Binary64) : c.summarize ranks = .ok c.withheldReport := by
  rw [summarize, if_neg (by simp [h])]
  rfl

theorem summarize_eq_ok_iff {c : Collection κ} {ranks : List Binary64} {report : Report κ} :
    c.summarize ranks = .ok report ↔
      (c.isTrustworthy = true ∧ ∃ series, c.groups.mapM (Group.summarize ranks) = .ok series ∧
        report = ⟨c.readings, [], false, series⟩) ∨
      (c.isTrustworthy = false ∧ report = c.withheldReport) := by
  cases htrust : c.isTrustworthy with
  | false => simp [summarize_of_not_isTrustworthy htrust, eq_comm]
  | true =>
    rw [summarize_of_isTrustworthy htrust, map_eq_ok_iff]
    simp

theorem exists_summarize (c : Collection κ) {ranks : List Binary64}
    (hranks : ∀ rank ∈ ranks, Quantity.isRank rank = true) :
    ∃ report, c.summarize ranks = .ok report := by
  cases htrust : c.isTrustworthy with
  | false => exact ⟨_, summarize_of_not_isTrustworthy htrust ranks⟩
  | true =>
    have hgroups : ∀ g ∈ c.groups, ∃ summary, g.summarize ranks = .ok summary := by
      intro g _
      exact g.exists_summarize hranks
    obtain ⟨series, hseries⟩ := exists_mapM_eq_ok hgroups
    exact ⟨_, summarize_eq_ok_iff.2 (.inl ⟨htrust, series, hseries, rfl⟩)⟩

theorem exists_report_of_any {c : Collection κ} {ranks : List Binary64} {p : Report κ → Bool}
    (h : (c.summarize ranks).toOption.any p = true) :
    ∃ report, c.summarize ranks = .ok report ∧ p report = true := by
  cases hc : c.summarize ranks with
  | error e => rw [hc] at h; cases h
  | ok report => rw [hc] at h; exact ⟨report, rfl, h⟩

/-- Nothing is lost between the groups of a trustworthy collection and its report. -/
theorem sum_count_of_summarize {c : Collection κ} {ranks : List Binary64} {report : Report κ}
    (htrust : c.isTrustworthy = true) (h : c.summarize ranks = .ok report) :
    report.readings = c.readings ∧
      (report.series.map (·.count)).sum = (c.groups.map Group.count).sum := by
  rcases summarize_eq_ok_iff.1 h with ⟨-, series, hseries, rfl⟩ | ⟨hnot, -⟩
  · have hcounts : List.Forall₂ (fun g summary => g.count = summary.count) c.groups series :=
      (mapM_eq_ok_iff.1 hseries).imp fun _ _ h => (Group.count_of_summarize h).symm
    refine ⟨rfl, congrArg List.sum ?_⟩
    rw [eq_comm, ← List.forall₂_eq_eq_eq, List.forall₂_map_left_iff, List.forall₂_map_right_iff]
    exact hcounts
  · rw [htrust] at hnot
    cases hnot

theorem readings_of_summarize {c : Collection κ} {ranks : List Binary64} {report : Report κ}
    (h : c.summarize ranks = .ok report) : report.readings = c.readings := by
  rcases summarize_eq_ok_iff.1 h with ⟨-, series, -, rfl⟩ | ⟨-, rfl⟩ <;> rfl

theorem withheld_of_summarize {c : Collection κ} {ranks : List Binary64} {report : Report κ}
    (h : c.summarize ranks = .ok report) : report.withheld = !c.isTrustworthy := by
  rcases summarize_eq_ok_iff.1 h with ⟨htrust, series, -, rfl⟩ | ⟨htrust, rfl⟩ <;>
    rw [htrust] <;> rfl

/-- Every series of a report is the summary of a group. -/
theorem exists_group_of_summarize {c : Collection κ} {ranks : List Binary64} {report : Report κ}
    (h : c.summarize ranks = .ok report) {summary : GroupSummary κ} (hs : summary ∈ report.series) :
    c.isTrustworthy = true ∧ ∃ g ∈ c.groups, g.summarize ranks = .ok summary := by
  rcases summarize_eq_ok_iff.1 h with ⟨htrust, series, hseries, rfl⟩ | ⟨-, rfl⟩
  · exact ⟨htrust, exists_of_mem_mapM hseries hs⟩
  · cases hs

end Collection

end Throughput
