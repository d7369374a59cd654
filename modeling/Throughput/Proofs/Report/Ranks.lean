/-
  Throughput/Proofs/Report/Ranks.lean
  ===================================
  **When summarizing fails.**  A rank that is no number between 0 and 100 is the only
  thing a summary can fail for, and it does so only where statistics are made at all:
  in a trustworthy collection, for a group that has samples.  The failure names the
  first such rank (`summarize_eq_error_iff`).  A group without samples has no
  statistics, so that they are never asked of nothing.

  A rank on the scale leads to a position among the samples, however it is rounded
  (`position_among`).
-/
import Throughput.Proofs.Number.Arithmetic
import Throughput.Proofs.Report.Summaries
import Throughput.Proofs.Session.Findings
import Throughput.Settings.Basic

namespace Throughput

/-! ### The scale -/

namespace Binary64

/-- NaN, or below 0, or above 100. -/
def isOffScale (rank : Binary64) : Bool :=
  rank.isNaN || numericLt rank (zero false) || numericLt (ofNat 100) rank

theorem numericLe_eq_not_numericLt {x y : Binary64} (hx : x.isNaN = false)
    (hy : y.isNaN = false) : numericLe x y = !numericLt y x := by
  rw [Bool.eq_iff_iff]
  simp [numericLe, numericLt, hx, hy]

/-- Magnitudes grow with the numbers that are not negative. -/
theorem ordinal_le_of_numericLe {x y : Binary64} (hx : numericLe (zero false) x = true)
    (hxy : numericLe x y = true) : x.ordinal ≤ y.ordinal := by
  have hzero : (zero false).numericKey = 0 := rfl
  simp only [numericLe, hzero, Bool.and_eq_true, decide_eq_true_eq] at hx hxy
  have hlower := hx.2
  have hupper := hxy.2
  unfold numericKey at hlower hupper
  split_ifs at hlower hupper <;> omega

theorem hundred_isFinite : (ofNat 100).isFinite = true := (ofNat_exact (by decide)).1

theorem isRank_iff {rank : Binary64} : Quantity.isRank rank = true ↔
    numericLe (zero false) rank = true ∧ numericLe rank (ofNat 100) = true := by
  change (numericLe (zero false) rank && numericLe rank (ofNat 100)) = true ↔ _
  rw [Bool.and_eq_true]

theorem isFinite_of_isRank {x : Binary64} (h : Quantity.isRank x = true) : x.isFinite = true := by
  obtain ⟨hlower, hupper⟩ := isRank_iff.1 h
  exact isFinite_of_ordinal_le hundred_isFinite (ordinal_le_of_numericLe hlower hupper)

theorem isRank_eq_not_isOffScale (rank : Binary64) :
    Quantity.isRank rank = !rank.isOffScale := by
  have hzero : (zero false).isNaN = false := by decide
  have hhundred := isNaN_eq_false hundred_isFinite
  change (numericLe (zero false) rank && numericLe rank (ofNat 100)) = _
  unfold isOffScale
  cases hrank : rank.isNaN with
  | true => simp [numericLe, hrank]
  | false =>
    rw [numericLe_eq_not_numericLt hzero hrank, numericLe_eq_not_numericLt hrank hhundred]
    simp

end Binary64

/-- Settings pass the check as they are, if all ranks are on the scale and the factor is
    positive. -/
theorem Settings.check_eq_ok_iff {s checked : Settings} :
    s.check = .ok checked ↔ checked = s ∧ (∀ rank ∈ s.percentiles, Quantity.isRank rank = true) ∧
      Binary64.numericLt (.zero false) s.bandwidth.gbitFactor = true := by
  unfold check
  cases hfind : s.percentiles.find? fun p => !Quantity.isRank p with
  | some rank =>
    have hmem := List.mem_of_find?_eq_some hfind
    have hoff := List.find?_some hfind
    simp only [reduceCtorEq, false_iff]
    rintro ⟨-, hranks, -⟩
    rw [hranks rank hmem] at hoff
    cases hoff
  | none =>
    have hranks : ∀ rank ∈ s.percentiles, Quantity.isRank rank = true := by
      simpa using hfind
    by_cases hfactor : Binary64.numericLt (.zero false) s.bandwidth.gbitFactor = true
    · simp only [if_pos hfactor, Except.ok.injEq]
      exact ⟨fun h => ⟨h.symm, hranks, hfactor⟩, fun h => h.1.symm⟩
    · simp only [if_neg hfactor, reduceCtorEq, false_iff]
      rintro ⟨-, -, hpositive⟩
      exact hfactor hpositive

/-! ### Positions -/

namespace Samples

theorem lowerIndex_eq (position : Binary64) : lowerIndex position = position.floor := by
  rw [lowerIndex]
  rfl

theorem upperIndex_eq (position : Binary64) : upperIndex position = position.ceil := by
  rw [upperIndex]
  rfl

/-- The samples that the value at a position is read from are there. -/
def IsAmong (count : Nat) (position : Binary64) : Prop :=
  lowerIndex position < count ∧ upperIndex position < count

/-- A rank on the scale leads to a position of at most the last sample's. -/
theorem ordinal_position_le {count : Nat} (hcount : count ≤ 2 ^ 53) {rank : Binary64}
    (hrank : rank.isOffScale = false) :
    (position count rank).ordinal ≤ (Binary64.ofNat (count - 1)).ordinal := by
  have hon : Quantity.isRank rank = true := by
    rw [Binary64.isRank_eq_not_isOffScale, hrank]
    rfl
  obtain ⟨hlower, hupper⟩ := Binary64.isRank_iff.1 hon
  have hhundred : (Binary64.ofNat 100).isZero = false := by decide +kernel
  have hlast : (Binary64.ofNat (count - 1)).isFinite = true :=
    (Binary64.ofNat_exact (by omega)).1
  apply Binary64.ordinal_mul_le _ hlast
  apply Binary64.ordinal_div_le _ Binary64.hundred_isFinite hhundred
  exact Binary64.ordinal_le_of_numericLe hlower hupper

/-- **Percentiles are read within the samples.** -/
theorem position_among {count : Nat} (hpos : 0 < count) (hcount : count ≤ 2 ^ 53)
    {rank : Binary64} (hrank : rank.isOffScale = false) :
    IsAmong count (position count rank) := by
  have hunits : (position count rank).units ≤ (count - 1) * Binary64.unitsPerOne := by
    rw [← (Binary64.ofNat_exact (by omega)).2]
    exact Binary64.unitsAt_mono (ordinal_position_le hcount hrank)
  have hone := Binary64.unitsPerOne_pos
  rw [IsAmong, lowerIndex_eq, upperIndex_eq]
  unfold Binary64.floor Binary64.ceil
  generalize (position count rank).units = units at hunits
  generalize Binary64.unitsPerOne = one at hunits hone
  have hwhole : (count - 1) * one + one = count * one := by
    rw [← Nat.succ_mul]
    congr 1
    omega
  constructor
  · apply (Nat.div_lt_iff_lt_mul hone).2
    omega
  · apply (Nat.div_lt_iff_lt_mul hone).2
    omega

end Samples

/-! ### Failures of ranks -/

/-- The failure names the first rank that is off the scale. -/
def Failure.NamesRank (failure : Failure) (ranks : List Binary64) : Prop :=
  ∃ rank, ranks.find? Binary64.isOffScale = some rank ∧ failure = .invalidPercentile rank

theorem Failure.NamesRank.eq {failure failure' : Failure} {ranks : List Binary64}
    (h : failure.NamesRank ranks) (h' : failure'.NamesRank ranks) : failure' = failure := by
  obtain ⟨rank, hfind, rfl⟩ := h
  obtain ⟨rank', hfind', rfl⟩ := h'
  rw [hfind] at hfind'
  cases hfind'
  rfl

theorem checkRank_eq_error_iff {rank : Binary64} {failure : Failure} :
    checkRank rank = .error failure ↔
      rank.isOffScale = true ∧ failure = .invalidPercentile rank := by
  rw [checkRank, Binary64.isRank_eq_not_isOffScale]
  cases rank.isOffScale <;> simp [eq_comm]

namespace Ascending

variable (s : Ascending Binary64) {ranks : List Binary64} {failure : Failure}

theorem percentile_eq_error_iff {rank : Binary64} :
    s.percentile rank = .error failure ↔ checkRank rank = .error failure := by
  rw [percentile, bind_pure_eq_map, map_eq_error_iff]

theorem percentiles_eq_error_iff :
    s.percentiles ranks = .error failure ↔ failure.NamesRank ranks := by
  rw [percentiles, mapM_eq_error_iff]
  apply firstFailure_iff_find?
  intro rank failure'
  rw [bind_pure_eq_map, map_eq_error_iff, percentile_eq_error_iff, checkRank_eq_error_iff]

theorem summarize_eq_error_iff :
    s.summarize ranks = .error failure ↔ failure.NamesRank ranks := by
  rw [summarize, bind_pure_eq_map, map_eq_error_iff, percentiles_eq_error_iff]

end Ascending

theorem Statistics.ofSamples_eq_error_iff {samples ranks : List Binary64} {failure : Failure}
    (h : samples ≠ []) : ofSamples samples ranks = .error failure ↔ failure.NamesRank ranks := by
  obtain ⟨first, rest, hcons⟩ := Samples.exists_sorted_eq_cons h
  rw [← Ascending.summarize_eq_error_iff ⟨first, rest⟩, ofSamples, Ascending.ofSamples, hcons]
  rfl

theorem Group.summarize_eq_error_iff {κ : Type} {g : Group κ} {ranks : List Binary64}
    {failure : Failure} :
    g.summarize ranks = .error failure ↔ g.isEmpty = false ∧ failure.NamesRank ranks := by
  unfold summarize
  split
  next hempty => simp [hempty]
  next hempty =>
    have hsamples : g.samples ≠ [] := by simpa [isEmpty] using hempty
    rw [bind_pure_eq_map, map_eq_error_iff, Statistics.ofSamples_eq_error_iff hsamples]
    simp [hempty]

namespace Collection

variable {κ : Type} {c : Collection κ} {ranks : List Binary64} {failure : Failure}

theorem summarize_eq_error_iff_firstFailure :
    c.summarize ranks = .error failure ↔
      c.isTrustworthy = true ∧ FirstFailure (Group.summarize ranks) c.groups failure := by
  cases htrust : c.isTrustworthy with
  | false => simp [summarize_of_not_isTrustworthy htrust]
  | true =>
    rw [summarize_of_isTrustworthy htrust, map_eq_error_iff, mapM_eq_error_iff]
    simp

/-- The first group with samples meets the first rank off the scale. -/
theorem firstFailure_summarize_iff :
    FirstFailure (Group.summarize ranks) c.groups failure ↔
      (∃ g ∈ c.groups, g.samples ≠ []) ∧ failure.NamesRank ranks := by
  constructor
  · rintro ⟨before, g, after, hgroups, -, hg⟩
    obtain ⟨hempty, hnames⟩ := Group.summarize_eq_error_iff.1 hg
    refine ⟨⟨g, ?_, ?_⟩, hnames⟩
    · rw [hgroups]
      exact List.mem_append_right _ List.mem_cons_self
    · simpa [Group.isEmpty] using hempty
  · rintro ⟨⟨g, hg, hsamples⟩, hnames⟩
    have hfails : ∀ (g' : Group κ) (e : Failure), g'.summarize ranks = .error e ↔
        (!g'.isEmpty) = true ∧ e = failure := by
      intro g' e
      rw [Group.summarize_eq_error_iff, Bool.not_eq_true']
      apply and_congr_right
      intro _
      constructor
      · exact hnames.eq
      · rintro rfl
        exact hnames
    have hsome : (c.groups.find? (!·.isEmpty)).isSome = true := by
      rw [List.find?_isSome]
      exact ⟨g, hg, by simpa [Group.isEmpty] using hsamples⟩
    obtain ⟨first, hfirst⟩ := Option.isSome_iff_exists.1 hsome
    exact (firstFailure_iff_find? hfails).2 ⟨first, hfirst, rfl⟩

theorem summarize_eq_error_iff :
    c.summarize ranks = .error failure ↔
      c.isTrustworthy = true ∧ (∃ g ∈ c.groups, g.samples ≠ []) ∧ failure.NamesRank ranks := by
  rw [summarize_eq_error_iff_firstFailure, firstFailure_summarize_iff]

theorem exists_summarize_of_check {settings accepted : Settings}
    (h : settings.check = .ok accepted) (c : Collection κ) :
    ∃ report, c.summarize settings.percentiles = .ok report :=
  c.exists_summarize (Settings.check_eq_ok_iff.1 h).2.1

/-- **A summary fails for its ranks only.**  However a session was finished, summarizing
    it fails exactly if it is trustworthy, some group has samples and some rank is off
    the scale, and then for the first such rank; it never asks for the statistics of
    nothing.  So ranks that the settings accept never fail.  Percentiles at ranks on the
    scale are read from samples that are there, at least among `2 ^ 53`. -/
theorem summarize_fails_iff (c : Collection κ) :
    (∀ ranks failure, c.summarize ranks = .error failure ↔
      c.isTrustworthy = true ∧ (∃ g ∈ c.groups, g.samples ≠ []) ∧
        ∃ rank, ranks.find? Binary64.isOffScale = some rank ∧
          failure = .invalidPercentile rank) ∧
    (∀ ranks, c.summarize ranks ≠ .error .emptyInput) ∧
    (∀ settings accepted : Settings, settings.check = .ok accepted →
      ∃ report, c.summarize settings.percentiles = .ok report) ∧
    ∀ g ∈ c.groups, g.samples ≠ [] → g.count ≤ 2 ^ 53 →
      ∀ rank : Binary64, rank.isOffScale = false →
        Samples.IsAmong g.count (Samples.position g.count rank) := by
  refine ⟨?_, ?_, ?_, ?_⟩
  · intro ranks failure
    exact summarize_eq_error_iff
  · intro ranks h
    obtain ⟨-, -, rank, -, hfailure⟩ := summarize_eq_error_iff.1 h
    cases hfailure
  · intro settings accepted h
    exact exists_summarize_of_check h c
  · intro g _ hsamples hcount rank hrank
    apply Samples.position_among _ hcount hrank
    exact List.length_pos_iff.2 hsamples

/-- Two days with a gap between them, at a list of ranks of which the second and the
    third are off the scale, and at the standard ones; then a session without input. -/
theorem summarize_fails_iff_gap_day :
    let days := (Session.after .comma .standard [
      .daily ⟨"27", Date.atClock ⟨2016, 2, 28, by decide⟩ 0 0 0⟩ "r, a, 3\n",
      .daily ⟨"27", Date.atClock ⟨2016, 3, 1, by decide⟩ 0 0 0⟩ "r, a, 4\nr, b, 2\n"]).finishContiguous
    let nothing : Collection Date := (Session.start .comma .standard).finishContiguous
    days.groups.map (·.samples) = [[.ofNat 3], [], [.ofNat 4, .ofNat 2]] ∧
    days.summarize [.zero true, .ofNat 101, .nan false] =
      .error (.invalidPercentile (.ofNat 101)) ∧
    (∃ report, days.summarize Settings.standard.percentiles = .ok report) ∧
    (∃ report, nothing.summarize Settings.standard.percentiles = .ok report) ∧
    Samples.IsAmong 2 (Samples.position 2 (Binary64.ofNat 95)) := by
  intro days nothing
  obtain ⟨hfails, -, hsettings, hamong⟩ := summarize_fails_iff days
  obtain ⟨-, -, hsettings', -⟩ := summarize_fails_iff nothing
  have hstandard : Settings.standard.check = .ok .standard := by decide +kernel
  obtain ⟨g, hg, hsamples⟩ : ∃ g ∈ days.groups, g.samples = [.ofNat 4, .ofNat 2] := by
    decide +kernel
  have hne : g.samples ≠ [] := by
    rw [hsamples]
    exact List.cons_ne_nil _ _
  have hcount : g.count = 2 := by
    rw [Group.count, hsamples]
    rfl
  refine ⟨by decide +kernel, ?_, hsettings _ _ hstandard, hsettings' _ _ hstandard, ?_⟩
  · apply (hfails _ _).2
    exact ⟨by decide +kernel, ⟨g, hg, hne⟩, .ofNat 101, by decide +kernel, rfl⟩
  · have h := hamong g hg hne (by rw [hcount]; decide) (Binary64.ofNat 95) (by decide +kernel)
    rwa [hcount] at h

end Collection

end Throughput
