/-
  Throughput/Proofs/Series/Counting.lean
  ======================================
  **Counting samples.**  A push adds one sample to the number that a collector
  holds, and the groups of a finished series count exactly these samples; the
  groups that fill gaps count none.
-/
import Mathlib.Algebra.Ring.Nat
import Throughput.Proofs.Series.Contents

namespace Throughput.Collector

variable {κ : Type} [SeriesKey κ]

/-! ### Collecting -/

def bufferedCount (buffers : List (Tag κ × Buffer)) : Nat :=
  (buffers.map fun e => e.2.samples.size).sum

theorem sampleCount_eq (c : Collector κ) : c.sampleCount = bufferedCount c.buffers := by
  rw [sampleCount, bufferedCount, List.sum_eq_foldl, List.foldl_map]

theorem bufferedCount_updateBuffers (tag : Tag κ) (time : Option Stamp) (value : Binary64)
    (buffers : List (Tag κ × Buffer)) :
    bufferedCount (updateBuffers tag (Buffer.add time value) buffers) =
      bufferedCount buffers + 1 := by
  induction buffers with
  | nil => simp [updateBuffers, bufferedCount, Buffer.add, Buffer.empty]
  | cons e rest ih =>
    simp only [bufferedCount] at ih
    simp only [updateBuffers]
    split
    · simp only [bufferedCount, List.map_cons, List.sum_cons, ih]
      omega
    · split
      · simp only [bufferedCount, List.map_cons, List.sum_cons, Buffer.add, Buffer.empty]
        simp
        omega
      · simp only [bufferedCount, List.map_cons, List.sum_cons, Buffer.add, Array.size_push]
        omega

@[simp] theorem sampleCount_push (c : Collector κ) (tag : Tag κ) (time : Option Stamp)
    (value : Binary64) : (c.push tag time value).sampleCount = c.sampleCount + 1 := by
  rw [sampleCount_eq, sampleCount_eq]
  exact bufferedCount_updateBuffers tag time value c.buffers

/-! ### Finishing -/

theorem sum_count_finish (c : Collector κ) : (c.finish.map Group.count).sum = c.sampleCount := by
  rw [sampleCount_eq, bufferedCount, finish, List.map_map]
  rfl

theorem sum_count_gaps (metric : Metric) (days : List Date) :
    ((days.map (Group.gap metric)).map Group.count).sum = 0 := by
  rw [List.sum_eq_zero_iff_forall_eq_nat]
  intro n hn
  simp only [List.map_map, List.mem_map] at hn
  obtain ⟨day, -, rfl⟩ := hn
  rfl

theorem sum_count_fillGaps (groups : List (Group Date)) :
    ((fillGaps groups).map Group.count).sum = (groups.map Group.count).sum := by
  fun_induction fillGaps groups with
  | case1 => rfl
  | case2 g => rfl
  | case3 g h rest gaps ih =>
    have hgaps : (gaps.map Group.count).sum = 0 := by
      dsimp only [gaps]
      split
      · exact sum_count_gaps _ _
      · rfl
    simp only [List.cons_append, List.map_cons, List.map_append, List.sum_cons, List.sum_append,
      hgaps, ih]
    omega

theorem sum_count_finishContiguous (c : Collector Date) :
    (c.finishContiguous.map Group.count).sum = c.sampleCount := by
  rw [finishContiguous, sum_count_fillGaps, sum_count_finish]

end Throughput.Collector
