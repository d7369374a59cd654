/-
  Throughput/Proofs/Statistics/Exact.lean
  =======================================
  **Statistics over exact numbers.**  Read over an ordered field, the definitions of
  the statistics obey the laws that one expects of them (`Readout.IsExact`): a percentile
  lies between the samples at the two indexes that it reads, both of them there; it grows
  with its rank; the mean lies within the samples; the variance is the mean square less
  the squared mean.  Changing the signs of the samples turns the percentiles around
  (`Readout.Opposes`).
-/
import Mathlib.Algebra.Order.BigOperators.Group.List
import Mathlib.Algebra.Order.Field.Basic
import Mathlib.Algebra.Order.Floor.Semiring
import Mathlib.Data.List.GetD
import Mathlib.Data.List.Induction
import Mathlib.Data.Rat.Floor
import Mathlib.Tactic.FieldSimp
import Mathlib.Tactic.Linarith
import Mathlib.Tactic.Ring
import Throughput.Proofs.Report.Summaries

namespace Throughput

/-! ### Exact numbers -/

/-- The numbers of an ordered field, which are computed with exactly.  How a root is
    taken is left open. -/
@[reducible] def Quantity.exact {K : Type} [Field K] [LinearOrder K] [IsStrictOrderedRing K]
    [FloorSemiring K] (root : K → K) : Quantity K where
  sortsBefore x y := decide (x ≤ y)
  emptySum := 0
  sqrt := root
  floor x := ⌊x⌋₊
  ceil x := ⌈x⌉₊
  isRank p := decide (0 ≤ p) && decide (p ≤ 100)

namespace Samples

/-! ### The line through ascending samples -/

section Line

variable {K : Type} [Field K] [LinearOrder K] [IsStrictOrderedRing K] [FloorSemiring K]
  {first : K} {xs : List K} {s t : K}

/-- The value at a position, on the straight line between the samples around it. -/
def lineAt (first : K) (xs : List K) (t : K) : K :=
  xs.getD ⌊t⌋₊ first + (xs.getD ⌈t⌉₊ first - xs.getD ⌊t⌋₊ first) * (t - ⌊t⌋₊)

omit [Field K] [IsStrictOrderedRing K] [FloorSemiring K] in
theorem getD_le_getD (h : xs.Pairwise (· ≤ ·)) {i j : Nat} (hij : i ≤ j) (hj : j < xs.length) :
    xs.getD i first ≤ xs.getD j first := by
  rw [List.getD_eq_getElem _ _ hj, List.getD_eq_getElem _ _ (hij.trans_lt hj)]
  rcases hij.eq_or_lt with rfl | hlt
  · exact le_rfl
  · exact List.pairwise_iff_getElem.1 h i j _ hj hlt

/-- A position among samples lies between two of them. -/
theorem indexes_lt (hne : xs ≠ []) (ht : t ≤ (xs.length - 1 : Nat)) :
    ⌊t⌋₊ < xs.length ∧ ⌈t⌉₊ < xs.length := by
  have hpos : 0 < xs.length := List.length_pos_iff.2 hne
  have hceil : ⌈t⌉₊ ≤ xs.length - 1 := Nat.ceil_le.2 ht
  have hfloor : ⌊t⌋₊ ≤ ⌈t⌉₊ := Nat.floor_le_ceil t
  omega

theorem lineAt_natCast (k : Nat) : lineAt first xs k = xs.getD k first := by
  simp [lineAt]

theorem lineAt_bounds (h : xs.Pairwise (· ≤ ·)) (hne : xs ≠ []) (h0 : 0 ≤ t)
    (ht : t ≤ (xs.length - 1 : Nat)) :
    xs.getD ⌊t⌋₊ first ≤ lineAt first xs t ∧ lineAt first xs t ≤ xs.getD ⌈t⌉₊ first := by
  have hstep : xs.getD ⌊t⌋₊ first ≤ xs.getD ⌈t⌉₊ first :=
    getD_le_getD h (Nat.floor_le_ceil t) (indexes_lt hne ht).2
  have hlower : 0 ≤ t - ⌊t⌋₊ := sub_nonneg.2 (Nat.floor_le h0)
  have hupper : t - ⌊t⌋₊ ≤ 1 := by
    have hlt := Nat.lt_floor_add_one t
    linarith
  have hpart := mul_le_of_le_one_right (sub_nonneg.2 hstep) hupper
  have hnonneg := mul_nonneg (sub_nonneg.2 hstep) hlower
  unfold lineAt
  constructor
  · linarith
  · linarith

/-- **The line does not fall.** -/
theorem lineAt_mono (h : xs.Pairwise (· ≤ ·)) (hne : xs ≠ []) (h0 : 0 ≤ s) (hst : s ≤ t)
    (ht : t ≤ (xs.length - 1 : Nat)) : lineAt first xs s ≤ lineAt first xs t := by
  have hs := hst.trans ht
  have hfloors : ⌊s⌋₊ ≤ ⌊t⌋₊ := Nat.floor_le_floor hst
  rcases hfloors.eq_or_lt with heq | hlt
  · -- on the same segment, or at its end: the one further along is higher
    have hhigh : xs.getD ⌈s⌉₊ first ≤ xs.getD ⌈t⌉₊ first :=
      getD_le_getD h (Nat.ceil_le_ceil hst) (indexes_lt hne ht).2
    have hstep : xs.getD ⌊s⌋₊ first ≤ xs.getD ⌈s⌉₊ first :=
      getD_le_getD h (Nat.floor_le_ceil s) (indexes_lt hne hs).2
    have hmul := mul_le_mul (sub_le_sub_right hhigh (xs.getD ⌊s⌋₊ first))
      (sub_le_sub_right hst (⌊s⌋₊ : K)) (sub_nonneg.2 (Nat.floor_le h0)) (by linarith)
    unfold lineAt
    rw [← heq]
    exact add_le_add_right hmul _
  · -- on different segments: a sample stands between
    have hbetween : ⌈s⌉₊ ≤ ⌊t⌋₊ := (Nat.ceil_le_floor_add_one s).trans hlt
    calc lineAt first xs s ≤ xs.getD ⌈s⌉₊ first := (lineAt_bounds h hne h0 hs).2
      _ ≤ xs.getD ⌊t⌋₊ first := getD_le_getD h hbetween (indexes_lt hne ht).1
      _ ≤ lineAt first xs t := (lineAt_bounds h hne (h0.trans hst) ht).1

omit [LinearOrder K] [IsStrictOrderedRing K] [FloorSemiring K] in
/-- In descending order, with the signs changed, the samples are ascending again. -/
theorem getD_map_neg_reverse {first' : K} {i : Nat} (hi : i < xs.length) :
    (xs.map (-·)).reverse.getD i first' = -xs.getD (xs.length - 1 - i) first := by
  have hj : xs.length - 1 - i < xs.length := by omega
  rw [List.getD_eq_getElem _ _ (by simpa using hi), List.getD_eq_getElem _ _ hj,
    List.getElem_reverse, List.getElem_map]
  simp

theorem floor_natCast_sub {n : Nat} (h0 : 0 ≤ t) (ht : t ≤ n) : ⌊(n : K) - t⌋₊ = n - ⌈t⌉₊ := by
  have hceil : ⌈t⌉₊ ≤ n := Nat.ceil_le.2 ht
  have hle := Nat.le_ceil t
  have hlt := Nat.ceil_lt_add_one h0
  apply le_antisymm
  · have hdown := Nat.floor_le (sub_nonneg.2 ht)
    rw [← Nat.lt_add_one_iff, ← Nat.cast_lt (α := K)]
    push_cast [Nat.cast_sub hceil]
    linarith
  · apply Nat.le_floor
    rw [Nat.cast_sub hceil]
    linarith

theorem ceil_natCast_sub {n : Nat} (h0 : 0 ≤ t) (ht : t ≤ n) : ⌈(n : K) - t⌉₊ = n - ⌊t⌋₊ := by
  have hfloor : ⌊t⌋₊ ≤ n := Nat.floor_le_of_le ht
  have hle := Nat.floor_le h0
  have hlt := Nat.lt_floor_add_one t
  apply le_antisymm
  · rw [Nat.ceil_le, Nat.cast_sub hfloor]
    linarith
  · have hup := Nat.le_ceil ((n : K) - t)
    rw [← Nat.lt_add_one_iff, ← Nat.cast_lt (α := K), Nat.cast_sub hfloor]
    push_cast
    linarith

/-- The line of the opposite samples is the opposite line, run through backwards. -/
theorem lineAt_map_neg_reverse {first' : K} (hne : xs ≠ []) (h0 : 0 ≤ t)
    (ht : t ≤ (xs.length - 1 : Nat)) :
    lineAt first' (xs.map (-·)).reverse t = -lineAt first xs ((xs.length - 1 : Nat) - t) := by
  obtain ⟨hfloor, hceil⟩ := indexes_lt hne ht
  unfold lineAt
  rw [floor_natCast_sub h0 ht, ceil_natCast_sub h0 ht, getD_map_neg_reverse hfloor,
    getD_map_neg_reverse hceil, Nat.cast_sub (by omega : ⌈t⌉₊ ≤ xs.length - 1)]
  rcases (Nat.ceil_le_floor_add_one t).eq_or_lt with hnext | hsame
  · rw [hnext]
    push_cast
    ring
  · -- at a sample there is no way to go, in either direction
    have hwhole : ⌈t⌉₊ = ⌊t⌋₊ := by
      have hle := Nat.floor_le_ceil t
      omega
    rw [hwhole]
    ring

end Line

/-! ### Positions -/

section Positions

variable {K : Type} [Field K] [LinearOrder K] [IsStrictOrderedRing K] {rank p q : K}

/-- The position of a rank among a number of samples. -/
def exactPosition (count : Nat) (rank : K) : K := rank / 100 * (count - 1 : Nat)

theorem exactPosition_nonneg (count : Nat) (h : 0 ≤ rank) : 0 ≤ exactPosition count rank := by
  unfold exactPosition
  positivity

theorem exactPosition_mono (count : Nat) (h : p ≤ q) :
    exactPosition count p ≤ exactPosition count q := by
  unfold exactPosition
  gcongr

theorem exactPosition_hundred (count : Nat) :
    exactPosition count (100 : K) = (count - 1 : Nat) := by
  rw [exactPosition, div_self (by norm_num), one_mul]

omit [LinearOrder K] [IsStrictOrderedRing K] in
theorem exactPosition_zero (count : Nat) : exactPosition count (0 : K) = (0 : Nat) := by
  simp [exactPosition]

theorem exactPosition_le (count : Nat) (h : rank ≤ 100) :
    exactPosition count rank ≤ (count - 1 : Nat) := by
  rw [← exactPosition_hundred]
  exact exactPosition_mono count h

theorem exactPosition_fifty (count : Nat) :
    exactPosition count (50 : K) = (count - 1 : Nat) / 2 := by
  unfold exactPosition
  ring

theorem exactPosition_hundred_sub (count : Nat) (rank : K) :
    exactPosition count (100 - rank) = (count - 1 : Nat) - exactPosition count rank := by
  rw [← exactPosition_hundred]
  unfold exactPosition
  ring

end Positions

/-! ### Mean and variance -/

section Moments

variable {K : Type} [Field K] {xs : List K}

/-- The mean of exact numbers. -/
def exactMean (xs : List K) : K := xs.sum / xs.length

/-- The mean square of the distance from the mean. -/
def exactVariance (xs : List K) : K :=
  (xs.map fun x => (x - exactMean xs) * (x - exactMean xs)).sum / xs.length

/-- The squared distances from a number, summed up. -/
theorem sum_map_sub_mul_self (xs : List K) (m : K) :
    (xs.map fun x => (x - m) * (x - m)).sum =
      (xs.map fun x => x * x).sum - 2 * m * xs.sum + xs.length * (m * m) := by
  induction xs with
  | nil => simp
  | cons x xs ih =>
    simp only [List.map_cons, List.sum_cons, List.length_cons, ih]
    push_cast
    ring

variable [LinearOrder K] [IsStrictOrderedRing K]

theorem length_pos_of_ne_nil (hne : xs ≠ []) : 0 < (xs.length : K) := by
  exact_mod_cast List.length_pos_iff.2 hne

theorem exactMean_bounds (hne : xs ≠ []) {least greatest : K}
    (h : ∀ x ∈ xs, least ≤ x ∧ x ≤ greatest) :
    least ≤ exactMean xs ∧ exactMean xs ≤ greatest := by
  have hpos : 0 < (xs.length : K) := length_pos_of_ne_nil hne
  have hlower := List.card_nsmul_le_sum xs least fun x hx => (h x hx).1
  have hupper := List.sum_le_card_nsmul xs greatest fun x hx => (h x hx).2
  rw [nsmul_eq_mul] at hlower hupper
  unfold exactMean
  constructor
  · rw [le_div_iff₀ hpos]
    linarith
  · rw [div_le_iff₀ hpos]
    linarith

/-- **The variance is the mean square less the squared mean.** -/
theorem exactVariance_eq (hne : xs ≠ []) :
    exactVariance xs = (xs.map fun x => x * x).sum / xs.length - exactMean xs * exactMean xs := by
  have hlength : (xs.length : K) ≠ 0 := (length_pos_of_ne_nil hne).ne'
  have hsum : xs.sum = xs.length * exactMean xs := by
    rw [exactMean]
    field_simp
  rw [exactVariance, sum_map_sub_mul_self]
  generalize exactMean xs = m at hsum
  rw [hsum]
  field_simp
  ring

/-- Samples vary unless they are all the same. -/
theorem exactVariance_eq_zero_iff (hne : xs ≠ []) :
    exactVariance xs = 0 ↔ ∀ x ∈ xs, ∀ y ∈ xs, x = y := by
  have hlength : (xs.length : K) ≠ 0 := (length_pos_of_ne_nil hne).ne'
  constructor
  · intro h
    rw [exactVariance, div_eq_zero_iff, or_iff_left hlength] at h
    have hnonneg : ∀ d ∈ xs.map fun x => (x - exactMean xs) * (x - exactMean xs), 0 ≤ d := by
      intro d hd
      obtain ⟨x, -, rfl⟩ := List.mem_map.1 hd
      exact mul_self_nonneg _
    have hmean : ∀ x ∈ xs, x = exactMean xs := by
      intro x hx
      have hzero := List.all_zero_of_le_zero_le_of_sum_eq_zero hnonneg h (List.mem_map_of_mem hx)
      exact sub_eq_zero.1 (mul_self_eq_zero.1 hzero)
    intro x hx y hy
    rw [hmean x hx, ← hmean y hy]
  · intro h
    obtain ⟨x, hx⟩ := List.exists_mem_of_ne_nil xs hne
    have hbounds := exactMean_bounds hne fun y hy => ⟨(h x hx y hy).le, (h y hy x hx).le⟩
    have hmean : exactMean xs = x := le_antisymm hbounds.2 hbounds.1
    have hzero : (xs.map fun y => (y - exactMean xs) * (y - exactMean xs)).sum = 0 := by
      apply List.sum_eq_zero
      intro d hd
      obtain ⟨y, hy, rfl⟩ := List.mem_map.1 hd
      rw [h y hy x hx, hmean, sub_self, mul_zero]
    rw [exactVariance, hzero, zero_div]

end Moments

end Samples

/-! ### The ends of ascending samples -/

namespace Ascending

/-- The greatest sample is the last one. -/
theorem getD_last {α : Type} (s : Ascending α) :
    s.toList.getD s.rest.length s.first = s.greatest := by
  obtain ⟨first, rest⟩ := s
  cases rest using List.reverseRecOn with
  | nil => rfl
  | append_singleton rest last => simp [toList, greatest]

end Ascending

/-! ### Readouts -/

/-- What is read off ascending samples: both ends, for a rank the indexes of the two
    closest samples and the percentile, the median, the mean and the variance. -/
structure Readout (K : Type) where
  least : K
  greatest : K
  lower : K → Nat
  upper : K → Nat
  percentile : K → K
  median : K
  mean : K
  variance : K

namespace Readout

variable {K : Type} [Field K] [LinearOrder K]

/-- The laws of what is read off ascending exact samples. -/
structure IsExact (xs : List K) (r : Readout K) : Prop where
  indexes : ∀ p, 0 ≤ p → p ≤ 100 → r.lower p < xs.length ∧ r.upper p < xs.length
  least : r.least ∈ xs ∧ ∀ x ∈ xs, r.least ≤ x
  greatest : r.greatest ∈ xs ∧ ∀ x ∈ xs, x ≤ r.greatest
  rises : ∀ p q, 0 ≤ p → p ≤ q → q ≤ 100 → r.least ≤ r.percentile p ∧
    r.percentile p ≤ r.percentile q ∧ r.percentile q ≤ r.greatest
  ends : r.percentile 0 = r.least ∧ r.percentile 100 = r.greatest
  at_sample : ∀ (p : K) (k : Nat), 0 ≤ p → p ≤ 100 → p / 100 * (xs.length - 1) = k →
    xs[k]? = some (r.percentile p)
  median_odd : xs.length % 2 = 1 → xs[xs.length / 2]? = some r.median
  median_even : xs.length % 2 = 0 → ∃ a b, xs[xs.length / 2 - 1]? = some a ∧
    xs[xs.length / 2]? = some b ∧ r.median = (a + b) / 2
  mean : r.least ≤ r.mean ∧ r.mean ≤ r.greatest
  variance : r.variance = (xs.map fun x => x * x).sum / xs.length - r.mean * r.mean
  variance_eq_zero_iff : r.variance = 0 ↔ ∀ x ∈ xs, ∀ y ∈ xs, x = y

/-- The percentiles of the one are those of the other, turned around. -/
def Opposes (r r' : Readout K) : Prop :=
  ∀ p, 0 ≤ p → p ≤ 100 → r'.percentile p = -r.percentile (100 - p)

variable [IsStrictOrderedRing K] [FloorSemiring K]

/-- What is read off the ascending samples of an ordered field. -/
def ofAscending (root : K → K) (s : Ascending K) : Readout K :=
  letI := Quantity.exact root
  { least := s.least
    greatest := s.greatest
    lower := fun rank => Samples.lowerIndex (Samples.position s.count rank)
    upper := fun rank => Samples.upperIndex (Samples.position s.count rank)
    percentile := s.valueAtRank
    median := s.valueAtRank ((50 : Nat) : K)
    mean := s.mean
    variance := Samples.variance s.toList }

/-- What is read off samples in any order. -/
def ofSamples (root : K → K) (samples : List K) : Except Failure (Readout K) :=
  letI := Quantity.exact root
  (Ascending.ofSamples samples).map (ofAscending root)

/-! What is read off, in the operations of the field. -/

variable (root : K → K) (s : Ascending K)

theorem position_exact (count : Nat) (rank : K) :
    letI := Quantity.exact root
    Samples.position count rank = Samples.exactPosition count rank := by
  change rank / ((100 : Nat) : K) * _ = rank / 100 * _
  rw [Nat.cast_ofNat]

theorem sum_exact (xs : List K) :
    letI := Quantity.exact root
    Samples.sum xs = xs.sum :=
  List.sum_eq_foldl.symm

theorem percentile_ofAscending (rank : K) : (ofAscending root s).percentile rank =
    Samples.lineAt s.first s.toList (Samples.exactPosition s.toList.length rank) := by
  rw [← position_exact root]
  rfl

theorem mean_ofAscending : (ofAscending root s).mean = Samples.exactMean s.toList := by
  rw [Samples.exactMean, ← sum_exact root]
  rfl

theorem variance_ofAscending : (ofAscending root s).variance = Samples.exactVariance s.toList := by
  rw [Samples.exactVariance, ← mean_ofAscending root, ← sum_exact root]
  rfl

section Laws

variable {root : K → K} {s : Ascending K} (h : s.toList.Pairwise (· ≤ ·))
include h

theorem percentile_rises {p q : K} (hp : 0 ≤ p) (hpq : p ≤ q) (hq : q ≤ 100) :
    (ofAscending root s).percentile p ≤ (ofAscending root s).percentile q := by
  rw [percentile_ofAscending, percentile_ofAscending]
  apply Samples.lineAt_mono h s.toList_ne_nil
  · exact Samples.exactPosition_nonneg _ hp
  · exact Samples.exactPosition_mono _ hpq
  · exact Samples.exactPosition_le _ hq

omit h in
theorem percentile_ends : (ofAscending root s).percentile 0 = s.least ∧
    (ofAscending root s).percentile 100 = s.greatest := by
  constructor
  · rw [percentile_ofAscending, Samples.exactPosition_zero, Samples.lineAt_natCast]
    rfl
  · rw [percentile_ofAscending, Samples.exactPosition_hundred, Samples.lineAt_natCast]
    exact s.getD_last

omit h in
/-- At a whole position stands a sample. -/
theorem percentile_at_sample {p : K} {k : Nat} (hp : p ≤ 100)
    (hk : Samples.exactPosition s.toList.length p = k) :
    s.toList[k]? = some ((ofAscending root s).percentile p) := by
  have hlt : k < s.toList.length := by
    have hle := Samples.exactPosition_le s.toList.length hp
    rw [hk, Nat.cast_le] at hle
    have hpos := List.length_pos_iff.2 s.toList_ne_nil
    omega
  rw [percentile_ofAscending, hk, Samples.lineAt_natCast, List.getD_eq_getElem _ _ hlt,
    List.getElem?_eq_getElem hlt]

omit h in
/-- Half way between two samples stands their average. -/
theorem percentile_between {p : K} {k : Nat} (hlt : k + 1 < s.toList.length)
    (hk : Samples.exactPosition s.toList.length p = k + 1 / 2) :
    ∃ a b, s.toList[k]? = some a ∧ s.toList[k + 1]? = some b ∧
      (ofAscending root s).percentile p = (a + b) / 2 := by
  refine ⟨_, _, List.getElem?_eq_getElem (by omega), List.getElem?_eq_getElem hlt, ?_⟩
  have hfloor : ⌊(k : K) + 1 / 2⌋₊ = k := by
    rw [Nat.floor_eq_iff (by positivity)]
    constructor
    · linarith
    · linarith
  have hceil : ⌈(k : K) + 1 / 2⌉₊ = k + 1 := by
    rw [Nat.ceil_eq_iff (by omega)]
    push_cast [Nat.add_sub_cancel]
    constructor
    · linarith
    · linarith
  rw [percentile_ofAscending, hk, Samples.lineAt, hfloor, hceil,
    List.getD_eq_getElem _ _ (by omega : k < _), List.getD_eq_getElem _ _ hlt]
  ring

omit [Field K] [IsStrictOrderedRing K] [FloorSemiring K] in
theorem ends_bound : s.least ∈ s.toList ∧ s.greatest ∈ s.toList ∧
    ∀ x ∈ s.toList, s.least ≤ x ∧ x ≤ s.greatest := by
  have hlt : s.rest.length < s.toList.length := Nat.lt_succ_self _
  have hlast : s.toList[s.rest.length] = s.greatest := by
    rw [← s.getD_last, List.getD_eq_getElem _ _ hlt]
  refine ⟨List.mem_cons_self, hlast ▸ List.getElem_mem hlt, ?_⟩
  intro x hx
  obtain ⟨i, hi, rfl⟩ := List.getElem_of_mem hx
  rw [← s.getD_last, ← List.getD_eq_getElem _ s.first hi]
  constructor
  · exact Samples.getD_le_getD (i := 0) h (Nat.zero_le i) hi
  · exact Samples.getD_le_getD h (Nat.le_of_lt_succ hi) hlt

omit h in
theorem median_ofAscending :
    (ofAscending root s).median = (ofAscending root s).percentile 50 := by
  change (ofAscending root s).percentile ((50 : Nat) : K) = _
  rw [Nat.cast_ofNat]

omit h in
theorem median_odd (hodd : s.toList.length % 2 = 1) :
    s.toList[s.toList.length / 2]? = some (ofAscending root s).median := by
  rw [median_ofAscending]
  apply percentile_at_sample (by norm_num)
  have hhalf : s.toList.length - 1 = 2 * (s.toList.length / 2) := by omega
  rw [Samples.exactPosition_fifty, hhalf]
  push_cast
  ring

omit h in
theorem median_even (heven : s.toList.length % 2 = 0) :
    ∃ a b, s.toList[s.toList.length / 2 - 1]? = some a ∧
      s.toList[s.toList.length / 2]? = some b ∧ (ofAscending root s).median = (a + b) / 2 := by
  have hpos : 0 < s.toList.length := List.length_pos_iff.2 s.toList_ne_nil
  have hnext : s.toList.length / 2 - 1 + 1 = s.toList.length / 2 := by omega
  have hhalf : s.toList.length - 1 = 2 * (s.toList.length / 2 - 1) + 1 := by omega
  have hposition : Samples.exactPosition s.toList.length (50 : K) =
      (s.toList.length / 2 - 1 : Nat) + 1 / 2 := by
    rw [Samples.exactPosition_fifty, hhalf]
    push_cast [Nat.add_sub_cancel]
    ring
  obtain ⟨a, b, ha, hb, hmedian⟩ := percentile_between (by omega) hposition
  rw [hnext] at hb
  exact ⟨a, b, ha, hb, hmedian⟩

/-- **Ascending exact samples give an exact readout.** -/
theorem isExact_ofAscending : (ofAscending root s).IsExact s.toList := by
  have hne := s.toList_ne_nil
  have hpos : 0 < s.toList.length := List.length_pos_iff.2 hne
  obtain ⟨hleast, hgreatest, hbounds⟩ := ends_bound h
  have hends : (ofAscending root s).percentile 0 = s.least ∧
      (ofAscending root s).percentile 100 = s.greatest := percentile_ends
  have hposition : ∀ p : K, Samples.exactPosition s.toList.length p =
      p / 100 * (s.toList.length - 1) := by
    intro p
    rw [Samples.exactPosition, Nat.cast_pred hpos]
  constructor
  case indexes =>
    intro p _ hp
    have hlt := Samples.indexes_lt hne (Samples.exactPosition_le s.toList.length hp)
    rwa [← position_exact root] at hlt
  case least => exact ⟨hleast, fun x hx => (hbounds x hx).1⟩
  case greatest => exact ⟨hgreatest, fun x hx => (hbounds x hx).2⟩
  case rises =>
    intro p q hp hpq hq
    refine ⟨?_, percentile_rises h hp hpq hq, ?_⟩
    · exact hends.1.symm.trans_le (percentile_rises h le_rfl hp (hpq.trans hq))
    · exact (percentile_rises h (hp.trans hpq) hq le_rfl).trans_eq hends.2
  case ends => exact hends
  case at_sample =>
    intro p k _ hp hk
    exact percentile_at_sample hp ((hposition p).trans hk)
  case median_odd => exact median_odd
  case median_even => exact median_even
  case mean =>
    rw [mean_ofAscending]
    exact Samples.exactMean_bounds hne hbounds
  case variance =>
    rw [variance_ofAscending, mean_ofAscending]
    exact Samples.exactVariance_eq hne
  case variance_eq_zero_iff =>
    rw [variance_ofAscending]
    exact Samples.exactVariance_eq_zero_iff hne

end Laws

/-- The percentiles of the opposite samples are the opposite percentiles, turned around. -/
theorem opposes_of_reverse {root : K → K} {s s' : Ascending K}
    (h : s'.toList = (s.toList.map (-·)).reverse) :
    (ofAscending root s).Opposes (ofAscending root s') := by
  intro p hp hp'
  have hlength : s'.toList.length = s.toList.length := by simp [h]
  rw [percentile_ofAscending, percentile_ofAscending, hlength, h,
    Samples.exactPosition_hundred_sub]
  apply Samples.lineAt_map_neg_reverse s.toList_ne_nil
  · exact Samples.exactPosition_nonneg _ hp
  · exact Samples.exactPosition_le _ hp'

/-! ### Samples in any order -/

section Sorting

variable (root : K → K)

theorem sorted_exact (samples : List K) :
    letI := Quantity.exact root
    (Samples.sorted samples).Perm samples ∧ (Samples.sorted samples).Pairwise (· ≤ ·) := by
  constructor
  · exact List.mergeSort_perm samples _
  · have htrans : ∀ x y z : K, decide (x ≤ y) = true → decide (y ≤ z) = true →
        decide (x ≤ z) = true := by
      simpa using fun x y z : K => le_trans
    have htotal : ∀ x y : K, (decide (x ≤ y) || decide (y ≤ x)) = true := by
      simpa using le_total
    have hsorted := List.pairwise_mergeSort htrans htotal samples
    simp only [decide_eq_true_eq] at hsorted
    exact hsorted

theorem exists_ofSamples {samples : List K} (hne : samples ≠ []) :
    ∃ s : Ascending K, s.toList.Perm samples ∧ s.toList.Pairwise (· ≤ ·) ∧
      ofSamples root samples = .ok (ofAscending root s) := by
  let _ := Quantity.exact root
  obtain ⟨hperm, hsorted⟩ := sorted_exact root samples
  cases hcons : Samples.sorted samples with
  | nil =>
    rw [hcons] at hperm
    exact absurd hperm.symm.eq_nil hne
  | cons first rest =>
    rw [hcons] at hperm hsorted
    refine ⟨⟨first, rest⟩, hperm, hsorted, ?_⟩
    rw [ofSamples, Ascending.ofSamples, hcons]
    rfl

omit [FloorSemiring K] in
/-- Ascending samples with the signs changed are ascending in reverse. -/
theorem toList_eq_reverse {s s' : Ascending K} {samples : List K} (hperm : s.toList.Perm samples)
    (hsorted : s.toList.Pairwise (· ≤ ·)) (hperm' : s'.toList.Perm (samples.map (-·)))
    (hsorted' : s'.toList.Pairwise (· ≤ ·)) : s'.toList = (s.toList.map (-·)).reverse := by
  have hopposite : s'.toList.Perm (s.toList.map (-·)).reverse :=
    (hperm'.trans (hperm.map _).symm).trans (List.reverse_perm _).symm
  apply hopposite.eq_of_pairwise _ hsorted'
  · rw [List.pairwise_reverse, List.pairwise_map]
    exact hsorted.imp fun hle => neg_le_neg hle
  · intro x y _ _ hxy hyx
    exact le_antisymm hxy hyx

/-- **The statistics of exact numbers obey their laws.**  Samples, at least one, are put in
    ascending order, and what is read off them is exact; read off the opposite samples,
    the percentiles are the opposite ones, turned around. -/
theorem ofSamples_isExact {samples : List K} (hne : samples ≠ []) :
    ∃ xs r r', xs.Perm samples ∧ xs.Pairwise (· ≤ ·) ∧
      ofSamples root samples = .ok r ∧ r.IsExact xs ∧
      ofSamples root (samples.map (-·)) = .ok r' ∧ r.Opposes r' := by
  obtain ⟨s, hperm, hsorted, hread⟩ := exists_ofSamples root hne
  have hne' : samples.map (-·) ≠ [] := by simpa using hne
  obtain ⟨s', hperm', hsorted', hread'⟩ := exists_ofSamples root hne'
  have hreverse := toList_eq_reverse hperm hsorted hperm' hsorted'
  exact ⟨s.toList, _, _, hperm, hsorted, hread, isExact_ofAscending hsorted, hread',
    opposes_of_reverse hreverse⟩

/-- Four samples out of order, at the rank of the third one and between ranks. -/
theorem ofSamples_isExact_four :
    ∃ r r' : Readout ℚ, ofSamples id [4, -1, 3, 3 / 2] = .ok r ∧
      ofSamples id [-4, 1, -3, -3 / 2] = .ok r' ∧ r.percentile (200 / 3) = 3 ∧
      r.median = 9 / 4 ∧ r.percentile 10 ≤ r.percentile 90 ∧ r.lower 90 < 4 ∧
      r'.percentile 10 = -r.percentile 90 ∧ r.variance ≠ 0 := by
  have hne : ([4, -1, 3, 3 / 2] : List ℚ) ≠ [] := List.cons_ne_nil _ _
  obtain ⟨xs, r, r', hperm, hsorted, hread, hexact, hread', hopposes⟩ := ofSamples_isExact id hne
  have hxs : xs = [-1, 3 / 2, 3, 4] := by
    have hlisted : xs.Perm [-1, 3 / 2, 3, 4] := hperm.trans (by decide +kernel)
    apply hlisted.eq_of_pairwise _ hsorted (by decide +kernel)
    intro x y _ _ hxy hyx
    exact le_antisymm hxy hyx
  subst hxs
  have hthird : r.percentile (200 / 3) = 3 := by
    have hat := hexact.at_sample (200 / 3) 2 (by norm_num) (by norm_num) (by norm_num)
    exact (Option.some_inj.1 hat).symm
  have hmedian : r.median = 9 / 4 := by
    obtain ⟨a, b, ha, hb, hab⟩ := hexact.median_even rfl
    cases ha
    cases hb
    rw [hab]
    norm_num
  have hrises := hexact.rises 10 90 (by norm_num) (by norm_num) (by norm_num)
  have hindexes := hexact.indexes 90 (by norm_num) (by norm_num)
  have hopposite := hopposes 10 (by norm_num) (by norm_num)
  have hvaries : r.variance ≠ 0 := by
    intro hzero
    have hsame := hexact.variance_eq_zero_iff.1 hzero 3 (by simp) 4 (by simp)
    norm_num at hsame
  refine ⟨r, r', hread, ?_, hthird, hmedian, hrises.2.1, hindexes.1, ?_, hvaries⟩
  · rw [← hread']
    norm_num
  · rw [hopposite]
    norm_num

end Sorting

end Readout

end Throughput
