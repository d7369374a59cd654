/-
  Throughput/Proofs/Statistics/Within.lean
  ========================================
  **Statistics of rounded numbers.**  Each operation of the statistics rounds, and yet
  hardly anything leaves the samples (`Statistics.StaysWithin`).  A percentile never does,
  unless the distance of two samples is out of range.  The mean may leave them by as much
  as a sum is off, and does so for samples that are all the same
  (`Statistics.ofSamples_leaves_samples`).
-/
import Throughput.Proofs.Number.Interpolation
import Throughput.Proofs.Report.Ranks
import Throughput.Proofs.Statistics.Sums

namespace Throughput

open Binary64 (IsNumber)

/-! ### Samples in ascending order -/

namespace Binary64

theorem signedUnits_le_of_sortsBefore {x y : Binary64} (h : sortsBefore x y = true) :
    x.signedUnits ≤ y.signedUnits := by
  have hkey : x.totalKey ≤ y.totalKey := of_decide_eq_true h
  rw [signedUnits_le_iff]
  unfold totalKey at hkey
  unfold numericKey
  split_ifs at hkey ⊢ <;> omega

theorem floor_le_ceil (x : Binary64) : x.floor ≤ x.ceil := by
  have hone := unitsPerOne_pos
  apply Nat.div_le_div_right
  omega

end Binary64

namespace Samples

/-- Samples in ascending order, all of them finite. -/
structure IsAscending (xs : List Binary64) : Prop where
  finite : ∀ x ∈ xs, x.isFinite = true
  sorted : xs.Pairwise fun x y => Binary64.sortsBefore x y = true

/-- The distance between the samples that a position lies between. -/
def gapAt (first : Binary64) (xs : List Binary64) (position : Binary64) : Binary64 :=
  xs.getD (upperIndex position) first - xs.getD (lowerIndex position) first

section Values

variable (first : Binary64) {position : Binary64} {xs : List Binary64} (h : IsAscending xs)
include h

theorem IsAscending.finite_getD {i : Nat} (hi : i < xs.length) :
    (xs.getD i first).isFinite = true := by
  rw [List.getD_eq_getElem _ _ hi]
  exact h.finite _ (List.getElem_mem hi)

theorem IsAscending.getD_le_getD {i j : Nat} (hij : i ≤ j) (hj : j < xs.length) :
    (xs.getD i first).signedUnits ≤ (xs.getD j first).signedUnits := by
  rw [List.getD_eq_getElem _ _ hj, List.getD_eq_getElem _ _ (hij.trans_lt hj)]
  rcases hij.eq_or_lt with rfl | hlt
  · exact le_rfl
  · apply Binary64.signedUnits_le_of_sortsBefore
    exact List.pairwise_iff_getElem.1 h.sorted i j _ hj hlt

/-- **A percentile lies within the samples.** -/
theorem IsAscending.valueAt_between (hlength : xs.length ≤ 2 ^ 53)
    (hfinite : position.isFinite = true) (hnonneg : 0 ≤ position.signedUnits)
    (hamong : IsAmong xs.length position) (hgap : (gapAt first xs position).isFinite = true) :
    (valueAt first xs position).isFinite = true ∧
      (xs.getD 0 first).signedUnits ≤ (valueAt first xs position).signedUnits ∧
      (valueAt first xs position).signedUnits ≤ (xs.getD (xs.length - 1) first).signedUnits := by
  rw [IsAmong, lowerIndex_eq, upperIndex_eq] at hamong
  rw [gapAt, lowerIndex_eq, upperIndex_eq] at hgap
  rw [valueAt, lowerIndex_eq, upperIndex_eq]
  obtain ⟨hfloor, hceil⟩ := hamong
  obtain ⟨hpart, hunits⟩ := Binary64.sub_floor hfinite hnonneg (hfloor.trans_le hlength)
  have hpartNonneg : 0 ≤ (position - Binary64.ofNat position.floor).signedUnits := by
    rw [hunits]
    exact Int.natCast_nonneg _
  have hpartLt : (position - Binary64.ofNat position.floor).units < Binary64.unitsPerOne := by
    rw [← Binary64.natAbs_signedUnits, hunits, Int.natAbs_natCast]
    exact Nat.mod_lt _ Binary64.unitsPerOne_pos
  have hstep := h.getD_le_getD first position.floor_le_ceil hceil
  obtain ⟨hvalue, hlower, hupper⟩ := Binary64.add_mul_between (h.finite_getD first hfloor)
    (h.finite_getD first hceil) hstep hgap hpartNonneg hpartLt
  have hleast := h.getD_le_getD first (Nat.zero_le _) hfloor
  have hgreatest := h.getD_le_getD first (Nat.le_sub_one_of_lt hceil) (by omega)
  exact ⟨hvalue, hleast.trans hlower, hupper.trans hgreatest⟩

end Values

/-- Moderate samples are not too far apart. -/
theorem isFinite_gapAt {first position : Binary64} {xs : List Binary64}
    (hfinite : ∀ x ∈ xs, x.isFinite = true) (hmoderate : ∀ x ∈ xs, IsModerate x)
    (hamong : IsAmong xs.length position) :
    (gapAt first xs position).isFinite = true := by
  obtain ⟨digits, hdigits⟩ : ∃ digits, digits = 1558 := ⟨1558, rfl⟩
  have hwithin : ∀ i, i < xs.length → IsWithin digits (xs.getD i first) := by
    intro i hi
    rw [List.getD_eq_getElem _ _ hi]
    exact isWithin_of_isModerate (hfinite _ (List.getElem_mem hi))
      (hmoderate _ (List.getElem_mem hi)) hdigits
  exact ((hwithin _ hamong.2).sub (hwithin _ hamong.1) (by omega)).finite

/-! ### Positions -/

/-- A rank on the scale leads to a finite position, not below the first sample. -/
theorem position_nonneg {count : Nat} (hcount : count ≤ 2 ^ 53) {rank : Binary64}
    (hrank : Quantity.isRank rank = true) :
    (position count rank).isFinite = true ∧ 0 ≤ (position count rank).signedUnits := by
  have hoff : rank.isOffScale = false := by
    rw [Binary64.isRank_eq_not_isOffScale] at hrank
    simpa using hrank
  have hlast : (Binary64.ofNat (count - 1)).isFinite = true :=
    (Binary64.ofNat_exact (by omega)).1
  have hfinite := Binary64.isFinite_of_ordinal_le hlast (ordinal_position_le hcount hoff)
  refine ⟨hfinite, ?_⟩
  obtain ⟨hlower, hupper⟩ := Binary64.isRank_iff.1 hrank
  have hhundred : 0 < (Binary64.ofNat 100).signedUnits := by
    rw [Binary64.signedUnits_ofNat (by decide), Int.natCast_pos]
    exact Nat.mul_pos (by decide) Binary64.unitsPerOne_pos
  have hpart := Binary64.isNonneg_div (Binary64.isNonneg_iff.2 hlower)
    Binary64.hundred_isFinite hhundred
  have hpartFinite : (rank / Binary64.ofNat 100).isFinite = true := by
    apply Binary64.isFinite_of_ordinal_le (Binary64.ofNat_exact (by decide : 1 < 2 ^ 53)).1
    apply Binary64.ordinal_div_le _ Binary64.hundred_isFinite (by decide +kernel)
    exact Binary64.ordinal_le_of_numericLe hlower hupper
  apply (Binary64.isNearest_mul hpartFinite hlast).ge_of_ge Binary64.isNumber_zero
  rw [Int.zero_mul]
  apply Int.mul_nonneg ((Binary64.isNonneg_iff_signedUnits hpartFinite).1 hpart)
  rw [Binary64.signedUnits_ofNat (by omega)]
  exact Int.natCast_nonneg _

end Samples

/-! ### Summaries -/

/-- The distance between the two samples that the percentile of a rank is read from. -/
def Ascending.gapAt (s : Ascending Binary64) (rank : Binary64) : Binary64 :=
  Samples.gapAt s.first s.toList (Samples.position s.count rank)

/-- How far rounding may lead the mean away from the exact one. -/
def Ascending.meanLoss (s : Ascending Binary64) : ℚ :=
  Samples.lossOf (s.count + 1) * Samples.exactMean (s.toList.map fun x => |x.value|) +
    Binary64.unit / 2

namespace Statistics

variable (t : Statistics Binary64)

/-- A finite number from the least sample to the greatest. -/
structure Spans (x : Binary64) : Prop where
  finite : x.isFinite = true
  least : Binary64.numericLe t.least x = true
  greatest : Binary64.numericLe x t.greatest = true

/-- Where finite samples lead in spite of rounding.  What may be out of range is a
    distance of two samples, their sum and the sum of the squares. -/
structure StaysWithin (s : Ascending Binary64) : Prop where
  percentile : ∀ p ∈ t.percentiles, (s.gapAt p.rank).isFinite = true → t.Spans p.value
  median : (s.gapAt (.ofNat 50)).isFinite = true → t.Spans t.median
  mean_finite : (Samples.sum s.toList).isFinite = true → t.mean.isFinite = true
  mean_near : (Samples.sum s.toList).isFinite = true →
    |t.mean.value - Samples.exactMean (s.toList.map Binary64.value)| ≤ s.meanLoss
  mean_bounds : (Samples.sum s.toList).isFinite = true →
    t.least.value - s.meanLoss ≤ t.mean.value ∧ t.mean.value ≤ t.greatest.value + s.meanLoss
  mean_spans : (∀ k : Nat, k ≤ s.count → IsNumber (k * t.least.signedUnits) ∧
    IsNumber (k * t.greatest.signedUnits)) → t.Spans t.mean
  deviation_nonneg : Binary64.numericLe (.zero false) t.deviation = true
  deviation_finite : (Samples.sum (Samples.squares s.toList)).isFinite = true →
    t.deviation.isFinite = true
  in_range : (∀ x ∈ s.toList, Samples.IsModerate x) → (Samples.sum s.toList).isFinite = true ∧
    (Samples.sum (Samples.squares s.toList)).isFinite = true ∧
      ∀ rank : Binary64, Quantity.isRank rank = true → (s.gapAt rank).isFinite = true

theorem spans_of_between {t : Statistics Binary64} {x : Binary64}
    (hleast : t.least.isFinite = true) (hgreatest : t.greatest.isFinite = true)
    (h : x.isFinite = true ∧ t.least.signedUnits ≤ x.signedUnits ∧
      x.signedUnits ≤ t.greatest.signedUnits) : t.Spans x := by
  obtain ⟨hfinite, hlower, hupper⟩ := h
  exact ⟨hfinite, (Binary64.numericLe_iff hleast hfinite).2 hlower,
    (Binary64.numericLe_iff hfinite hgreatest).2 hupper⟩

end Statistics

namespace Ascending

variable {s : Ascending Binary64}

theorem position_among {rank : Binary64} (hcount : s.count ≤ 2 ^ 53)
    (hrank : Quantity.isRank rank = true) :
    Samples.IsAmong s.count (Samples.position s.count rank) := by
  apply Samples.position_among (Nat.succ_pos _) hcount
  rw [Binary64.isRank_eq_not_isOffScale] at hrank
  simpa using hrank

/-- What a percentile shows is the value at its rank. -/
theorem of_mem_percentiles {ranks : List Binary64} {ps : List (Percentile Binary64)}
    (h : s.percentiles ranks = .ok ps) {p : Percentile Binary64} (hp : p ∈ ps) :
    Quantity.isRank p.rank = true ∧ p.value = s.valueAtRank p.rank := by
  obtain ⟨rank, -, hrank⟩ := exists_of_mem_mapM h hp
  by_cases hon : Quantity.isRank rank = true
  · rw [percentile_of_isRank s hon] at hrank
    cases hrank
    exact ⟨hon, rfl⟩
  · rw [percentile, checkRank, if_neg hon] at hrank
    cases hrank

variable (h : Samples.IsAscending s.toList) (hcount : s.count < 2 ^ 53)
include h hcount

/-- **The value at a rank lies within the samples.** -/
theorem valueAtRank_between {rank : Binary64} (hrank : Quantity.isRank rank = true)
    (hgap : (s.gapAt rank).isFinite = true) :
    (s.valueAtRank rank).isFinite = true ∧
      s.least.signedUnits ≤ (s.valueAtRank rank).signedUnits ∧
      (s.valueAtRank rank).signedUnits ≤ s.greatest.signedUnits := by
  obtain ⟨hfinite, hnonneg⟩ := Samples.position_nonneg hcount.le hrank
  have hvalue := h.valueAt_between s.first hcount.le hfinite hnonneg
    (position_among hcount.le hrank) hgap
  rwa [show s.toList.length - 1 = s.rest.length from rfl, getD_last] at hvalue

omit hcount in
/-- All samples lie between the least and the greatest. -/
theorem ends_bound_units : s.least.isFinite = true ∧ s.greatest.isFinite = true ∧
    ∀ x ∈ s.toList, s.least.signedUnits ≤ x.signedUnits ∧
      x.signedUnits ≤ s.greatest.signedUnits := by
  have hlast : s.rest.length < s.toList.length := Nat.lt_succ_self _
  refine ⟨h.finite _ List.mem_cons_self, ?_, ?_⟩
  · rw [← getD_last]
    exact h.finite_getD _ hlast
  · intro x hx
    constructor
    · exact Binary64.signedUnits_le_of_sortsBefore (least_sortsBefore h.sorted x hx)
    · exact Binary64.signedUnits_le_of_sortsBefore (sortsBefore_greatest h.sorted x hx)

theorem mean_near (hsum : (Samples.sum s.toList).isFinite = true) :
    |s.mean.value - Samples.exactMean (s.toList.map Binary64.value)| ≤ s.meanLoss :=
  Samples.mean_error s.toList_ne_nil hcount h.finite hsum

/-- The mean leaves the samples by no more than its error. -/
theorem mean_bounds (hsum : (Samples.sum s.toList).isFinite = true) :
    s.least.value - s.meanLoss ≤ s.mean.value ∧ s.mean.value ≤ s.greatest.value + s.meanLoss := by
  obtain ⟨-, -, hbounds⟩ := ends_bound_units h
  have hvalues : ∀ v ∈ s.toList.map Binary64.value, s.least.value ≤ v ∧ v ≤ s.greatest.value := by
    intro v hv
    obtain ⟨x, hx, rfl⟩ := List.mem_map.1 hv
    exact (hbounds x hx).imp Binary64.value_le_iff.2 Binary64.value_le_iff.2
  have hne : s.toList.map Binary64.value ≠ [] := List.map_eq_nil_iff.not.2 s.toList_ne_nil
  obtain ⟨hlower, hupper⟩ := Samples.exactMean_bounds hne hvalues
  obtain ⟨hnear, hnear'⟩ := abs_le.1 (mean_near h hcount hsum)
  constructor
  · linarith
  · linarith

/-- Where the multiples of both ends are numbers, no rounding leads past them. -/
theorem mean_between (hnumbers : ∀ k : Nat, k ≤ s.count →
    IsNumber (k * s.least.signedUnits) ∧ IsNumber (k * s.greatest.signedUnits)) :
    s.mean.isFinite = true ∧ s.least.signedUnits ≤ s.mean.signedUnits ∧
      s.mean.signedUnits ≤ s.greatest.signedUnits := by
  obtain ⟨hleast, hgreatest, hbounds⟩ := ends_bound_units h
  have hsamples : ∀ x ∈ s.toList, x.isFinite = true ∧ s.least.signedUnits ≤ x.signedUnits ∧
      x.signedUnits ≤ s.greatest.signedUnits := fun x hx => ⟨h.finite x hx, hbounds x hx⟩
  obtain ⟨hsum, hlower, hupper⟩ := Samples.sum_between hsamples hnumbers
  exact Samples.mean_between s.toList_ne_nil hcount (Binary64.isNumber_signedUnits hleast)
    (Binary64.isNumber_signedUnits hgreatest) hsum hlower hupper

/-- **Statistics stay within their samples.** -/
theorem staysWithin_of_summarize {ranks : List Binary64} {t : Statistics Binary64}
    (ht : s.summarize ranks = .ok t) : t.StaysWithin s := by
  obtain ⟨ps, hps, rfl⟩ := summarize_eq_ok_iff.1 ht
  obtain ⟨hleast, hgreatest, -⟩ := ends_bound_units h
  have hne := s.toList_ne_nil
  constructor
  case percentile =>
    intro p hp hgap
    obtain ⟨hrank, hvalue⟩ := of_mem_percentiles hps hp
    rw [hvalue]
    exact Statistics.spans_of_between hleast hgreatest (valueAtRank_between h hcount hrank hgap)
  case median =>
    intro hgap
    have hfifty : Quantity.isRank (Binary64.ofNat 50) = true := by decide +kernel
    exact Statistics.spans_of_between hleast hgreatest (valueAtRank_between h hcount hfifty hgap)
  case mean_finite => exact Samples.isFinite_mean hne hcount
  case mean_near => exact mean_near h hcount
  case mean_bounds => exact mean_bounds h hcount
  case mean_spans =>
    intro hnumbers
    exact Statistics.spans_of_between hleast hgreatest (mean_between h hcount hnumbers)
  case deviation_nonneg =>
    exact Binary64.isNonneg_iff.1 (Samples.isNonneg_deviation hne hcount h.finite)
  case deviation_finite => exact Samples.isFinite_deviation hne hcount h.finite
  case in_range =>
    intro hmoderate
    obtain ⟨hsum, hsquares⟩ := Samples.isFinite_sums hne hcount h.finite hmoderate
    refine ⟨hsum, hsquares, ?_⟩
    intro rank hrank
    exact Samples.isFinite_gapAt h.finite hmoderate (position_among hcount.le hrank)

end Ascending

namespace Statistics

/-- **Statistics of finite samples stay within them.**  At ranks on the scale they exist.
    A percentile, the median among them, lies between the least sample and the greatest,
    unless the distance of the two samples that it is read from is out of range.  The mean
    is as near to the exact one as its error bound says, unless the sum is out of range,
    and lies between the ends itself where their multiples are numbers.  The deviation is
    not negative, and finite unless the sum of the squares is out of range.  Samples of
    magnitudes up to `2 ^ 484` keep all of this in range. -/
theorem ofSamples_staysWithin {samples ranks : List Binary64} (hne : samples ≠ [])
    (hcount : samples.length < 2 ^ 53) (hfinite : ∀ x ∈ samples, x.isFinite = true)
    (hranks : ∀ rank ∈ ranks, Quantity.isRank rank = true) :
    ∃ (s : Ascending Binary64) (t : Statistics Binary64), s.toList = Samples.sorted samples ∧
      t.Describes ranks samples ∧ t.StaysWithin s := by
  obtain ⟨t, ht⟩ := exists_ofSamples hne hranks
  obtain ⟨s, hsorted, hsummary⟩ := ofSamples_eq_ok_iff.1 ht
  have hperm := Samples.sorted_perm samples
  rw [← hsorted] at hperm
  have hascending : Samples.IsAscending s.toList := by
    constructor
    · intro x hx
      exact hfinite x (hperm.mem_iff.1 hx)
    · rw [hsorted]
      exact Samples.pairwise_sorted samples
  have hlength : s.count < 2 ^ 53 := by
    change s.toList.length < 2 ^ 53
    rwa [hperm.length_eq]
  exact ⟨s, t, hsorted, describes_of_ofSamples ht,
    Ascending.staysWithin_of_summarize hascending hlength hsummary⟩

/-- Three small whole numbers, at a rank between the first two. -/
theorem ofSamples_staysWithin_three :
    let samples : List Binary64 := [.ofNat 3, .ofNat 1, .ofNat 2]
    ∃ t, ofSamples samples [.ofNat 25] = .ok t ∧ t.Spans t.mean ∧ t.Spans t.median ∧
      (∀ p ∈ t.percentiles, t.Spans p.value) ∧ t.deviation.isFinite = true := by
  intro samples
  have hfinite : ∀ x ∈ samples, x.isFinite = true := by decide +kernel
  have hrank : ∀ rank ∈ [Binary64.ofNat 25], Quantity.isRank rank = true := by decide +kernel
  obtain ⟨s, t, hsorted, hdescribes, hwithin⟩ :=
    ofSamples_staysWithin (List.cons_ne_nil _ _) (by decide : samples.length < 2 ^ 53) hfinite hrank
  have hperm : s.toList.Perm samples := hsorted ▸ Samples.sorted_perm samples
  have hsmall : ∀ x ∈ samples, ∃ n ≤ 3, x = .ofNat n := by
    intro x hx
    simp only [samples, List.mem_cons, List.not_mem_nil, or_false] at hx
    rcases hx with rfl | rfl | rfl
    · exact ⟨3, by decide, rfl⟩
    · exact ⟨1, by decide, rfl⟩
    · exact ⟨2, by decide, rfl⟩
  obtain ⟨hsum, hsquares, hgap⟩ := hwithin.in_range fun x hx => by
    obtain ⟨n, hn, rfl⟩ := hsmall x (hperm.mem_iff.1 hx)
    exact Samples.isModerate_ofNat (by omega)
  have hnumber : ∀ x ∈ samples, ∀ k : Nat, k ≤ s.count → IsNumber (k * x.signedUnits) := by
    intro x hx k hk
    obtain ⟨n, hn, rfl⟩ := hsmall x hx
    have hcount : s.count = 3 := hperm.length_eq
    have hlt : k * n < 2 ^ 53 := by
      have hle : k * n ≤ 3 * 3 := Nat.mul_le_mul (by omega) hn
      omega
    have hproduct := Binary64.isNumber_signedUnits (Binary64.ofNat_exact hlt).1
    rw [Binary64.signedUnits_ofNat hlt, Nat.mul_assoc, Nat.cast_mul] at hproduct
    rwa [Binary64.signedUnits_ofNat (by omega)]
  refine ⟨t, hdescribes.of_samples, hwithin.mean_spans fun k hk => ⟨?_, ?_⟩, ?_, ?_,
    hwithin.deviation_finite hsquares⟩
  · exact hnumber _ hdescribes.least_mem k hk
  · exact hnumber _ hdescribes.greatest_mem k hk
  · exact hwithin.median (hgap _ (by decide +kernel))
  · intro p hp
    have hmem : p.rank ∈ t.percentiles.map (·.rank) := List.mem_map_of_mem hp
    rw [hdescribes.ranks_eq] at hmem
    exact hwithin.percentile p hp (hgap _ (hrank _ hmem))

/-- The mean of three tenths is above all three of them, and half way between two numbers
    far apart there is no finite one. -/
theorem ofSamples_leaves_samples :
    let tenth : Binary64 := .ofUnits false Binary64.unitsPerOne 10
    let far : Binary64 := .ofNat (10 ^ 308)
    (tenth.isFinite = true ∧ ∃ t, ofSamples [tenth, tenth, tenth] [] = .ok t ∧
      Binary64.numericLe t.mean t.greatest = false) ∧
    far.isFinite = true ∧ ∃ t, ofSamples [far.neg, far] [] = .ok t ∧
      t.median.isFinite = false := by
  intro tenth far
  have hsorted : Samples.sorted [tenth, tenth, tenth] = [tenth, tenth, tenth] :=
    List.mergeSort_of_pairwise (by decide +kernel)
  have hsorted' : Samples.sorted [far.neg, far] = [far.neg, far] :=
    List.mergeSort_of_pairwise (by decide +kernel)
  refine ⟨⟨by decide +kernel, ?_⟩, by decide +kernel, ?_⟩
  · refine ⟨_, ofSamples_eq_ok_iff.2 ⟨⟨tenth, [tenth, tenth]⟩, hsorted.symm,
      Ascending.summarize_eq_ok_iff.2 ⟨[], rfl, rfl⟩⟩, ?_⟩
    decide +kernel
  · refine ⟨_, ofSamples_eq_ok_iff.2 ⟨⟨far.neg, [far]⟩, hsorted'.symm,
      Ascending.summarize_eq_ok_iff.2 ⟨[], rfl, rfl⟩⟩, ?_⟩
    decide +kernel

end Statistics

end Throughput
