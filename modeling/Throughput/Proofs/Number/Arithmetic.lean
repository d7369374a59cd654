/-
  Throughput/Proofs/Number/Arithmetic.lean
  ========================================
  **Products and quotients of finite numbers.**  Either operation computes with whole
  numbers of units and rounds once (`ordinal_mul`, `ordinal_div`).  So bounds that are
  themselves numbers survive the rounding: a part of a number is at most one
  (`ordinal_div_le`), and at most one times a number is at most that number
  (`ordinal_mul_le`).  Whole numbers below `2 ^ 53` are numbers (`ofNat_exact`).
-/
import Throughput.Proofs.Number.Rounding

namespace Throughput.Binary64

variable {x y : Binary64}

theorem isNaN_eq_false (h : x.isFinite = true) : x.isNaN = false := by
  simp only [isFinite, isNaN, decide_eq_true_eq, decide_eq_false_iff_not] at *
  omega

theorem isInfinite_eq_false (h : x.isFinite = true) : x.isInfinite = false := by
  simp only [isFinite, isInfinite, decide_eq_true_eq, beq_eq_false_iff_ne] at *
  omega

theorem ordinal_pos (h : x.isZero = false) : 0 < x.ordinal :=
  Nat.pos_of_ne_zero (by simpa [isZero] using h)

theorem isFinite_of_ordinal_le (hy : y.isFinite = true) (h : x.ordinal ≤ y.ordinal) :
    x.isFinite = true :=
  decide_eq_true (Nat.lt_of_le_of_lt h (of_decide_eq_true hy))

theorem unitsPerOne_pos : 0 < unitsPerOne := by
  unfold unitsPerOne
  generalize 1074 = places
  exact Nat.pow_pos (by decide)

/-! ### Whole numbers -/

/-- A whole number below `2 ^ 53` times a power of two stands in the list of magnitudes. -/
theorem exists_unitsAt_mul_pow {n : Nat} (hn : n < 2 ^ 53) (e : Nat) :
    ∃ place, unitsAt place = n * 2 ^ e := by
  by_cases hzero : n = 0
  · refine ⟨0, ?_⟩
    rw [hzero, Nat.zero_mul]
    rfl
  · have hlog : n.log2 < 53 := (Nat.log2_lt hzero).2 hn
    have hlower : 2 ^ n.log2 ≤ n := Nat.log2_self_le hzero
    have hupper : n < 2 ^ (n.log2 + 1) := Nat.lt_log2_self
    generalize n.log2 = log at hlog hlower hupper
    have hend : 2 ^ (log + 1) * 2 ^ (52 - log) = 2 ^ 53 := by
      rw [← Nat.pow_add]
      congr 1
      omega
    rcases Nat.le_total (52 - log) e with hle | hle
    · -- the significand is shifted until it has 53 binary digits
      have hleast : 2 ^ 52 ≤ n * 2 ^ (52 - log) := by
        calc 2 ^ 52 = 2 ^ log * 2 ^ (52 - log) := by rw [← Nat.pow_add]; congr 1; omega
          _ ≤ n * 2 ^ (52 - log) := Nat.mul_le_mul_right _ hlower
      have hgreatest : n * 2 ^ (52 - log) ≤ 2 ^ 53 := by
        rw [← hend]
        exact Nat.mul_le_mul_right _ hupper.le
      refine ⟨(e - (52 - log)) * 2 ^ 52 + n * 2 ^ (52 - log), ?_⟩
      rw [unitsAt_eq hgreatest (.inr hleast), Nat.mul_assoc, ← Nat.pow_add]
      congr 2
      omega
    · -- in the lowest binade every whole number has its place
      have hgreatest : n * 2 ^ e ≤ 2 ^ 53 := by
        rw [← hend]
        exact Nat.mul_le_mul hupper.le (Nat.pow_le_pow_right (by decide) hle)
      refine ⟨0 * 2 ^ 52 + n * 2 ^ e, ?_⟩
      rw [unitsAt_eq hgreatest (.inl rfl), Nat.pow_zero, Nat.mul_one]

/-- In range it is the magnitude of a finite number. -/
theorem exists_finite_mul_pow {n e : Nat} (hn : n < 2 ^ 53) (he : e ≤ 2045) :
    ∃ place < infinityOrdinal, unitsAt place = n * 2 ^ e := by
  obtain ⟨place, hplace⟩ := exists_unitsAt_mul_pow hn e
  have hrange : 2 ^ (53 + e) ≤ 2 ^ (52 + 2046) := by
    apply Nat.pow_le_pow_right (by decide)
    omega
  refine ⟨place, lt_infinityOrdinal (Nat.lt_of_lt_of_le ?_ hrange), hplace⟩
  rw [hplace, Nat.pow_add]
  exact Nat.mul_lt_mul_of_pos_right hn (Nat.two_pow_pos _)

theorem unitsPerOne_eq_pow {places : Nat} (h : places = 1074) : unitsPerOne = 2 ^ places := by
  unfold unitsPerOne
  rw [← h]
  rfl

/-- A whole number below `2 ^ 53` stands in the list of magnitudes. -/
theorem exists_unitsAt_eq {n : Nat} (hn : n < 2 ^ 53) :
    ∃ place < infinityOrdinal, unitsAt place = n * unitsPerOne := by
  obtain ⟨places, hplaces⟩ : ∃ places, places = 1074 := ⟨1074, rfl⟩
  rw [unitsPerOne_eq_pow hplaces]
  exact exists_finite_mul_pow hn (by omega)

theorem ofNat_exact {n : Nat} (hn : n < 2 ^ 53) :
    (ofNat n).isFinite = true ∧ (ofNat n).units = n * unitsPerOne := by
  obtain ⟨place, hplace, hunits⟩ := exists_unitsAt_eq hn
  have hordinal : (ofNat n).ordinal = place := by
    change nearestOrdinal (n * unitsPerOne) 1 = place
    rw [← hunits, ← Nat.mul_one (unitsAt place)]
    exact nearestOrdinal_unitsAt Nat.one_pos hplace.le
  constructor
  · rw [isFinite, hordinal]
    exact decide_eq_true hplace
  · rw [units, hordinal, hunits]

theorem units_one : (ofNat 1).units = unitsPerOne := by
  rw [(ofNat_exact (by decide)).2, Nat.one_mul]

/-! ### Products -/

/-- The place of the product of two magnitudes. -/
def productOrdinal (x y : Binary64) : Nat := nearestOrdinal (x.units * y.units) unitsPerOne

theorem ordinal_mul (hx : x.isFinite = true) (hy : y.isFinite = true) :
    (x * y).ordinal = productOrdinal x y := by
  change (mul x y).ordinal = _
  simp only [mul, isNaN_eq_false hx, isNaN_eq_false hy, isInfinite_eq_false hx,
    isInfinite_eq_false hy, Bool.false_eq_true, if_false, Bool.or_self]
  rfl

theorem isFinite_mul (hx : x.isFinite = true) (hy : y.isFinite = true)
    (h : productOrdinal x y < infinityOrdinal) : (x * y).isFinite = true := by
  rw [isFinite, ordinal_mul hx hy]
  exact decide_eq_true h

/-- At most one times a number is at most that number. -/
theorem ordinal_mul_le (hx : x.ordinal ≤ (ofNat 1).ordinal) (hy : y.isFinite = true) :
    (x * y).ordinal ≤ y.ordinal := by
  have hfinite : x.isFinite = true := isFinite_of_ordinal_le (ofNat_exact (by decide)).1 hx
  have hunits : x.units ≤ unitsPerOne := by
    rw [← units_one]
    exact unitsAt_mono hx
  have hproduct : x.units * y.units ≤ unitsAt y.ordinal * unitsPerOne := by
    rw [Nat.mul_comm]
    exact Nat.mul_le_mul_left _ hunits
  rw [ordinal_mul hfinite hy, productOrdinal]
  apply Nat.le_trans (nearestOrdinal_mono unitsPerOne_pos hproduct)
  exact (nearestOrdinal_unitsAt unitsPerOne_pos (of_decide_eq_true hy : _ < _).le).le

/-! ### Quotients -/

theorem ordinal_div (hx : x.isFinite = true) (hy : y.isFinite = true) (hzero : y.isZero = false) :
    (x / y).ordinal = nearestOrdinal (x.units * unitsPerOne) y.units := by
  change (div x y).ordinal = _
  simp only [div, isNaN_eq_false hx, isNaN_eq_false hy, isInfinite_eq_false hx,
    isInfinite_eq_false hy, hzero, Bool.false_eq_true, if_false]
  rfl

/-- A part of a number, divided by the number, is at most one. -/
theorem ordinal_div_le (h : x.ordinal ≤ y.ordinal) (hy : y.isFinite = true)
    (hzero : y.isZero = false) : (x / y).ordinal ≤ (ofNat 1).ordinal := by
  have hpos : 0 < y.units := unitsAt_pos (ordinal_pos hzero)
  have hone : (ofNat 1).ordinal ≤ infinityOrdinal :=
    (of_decide_eq_true (ofNat_exact (by decide)).1 : _ < _).le
  have hunits : x.units * unitsPerOne ≤ unitsAt (ofNat 1).ordinal * y.units := by
    change _ ≤ (ofNat 1).units * y.units
    rw [units_one, Nat.mul_comm]
    exact Nat.mul_le_mul_left _ (unitsAt_mono h)
  rw [ordinal_div (isFinite_of_ordinal_le hy h) hy hzero]
  apply Nat.le_trans (nearestOrdinal_mono hpos hunits)
  exact (nearestOrdinal_unitsAt hpos hone).le

end Throughput.Binary64
