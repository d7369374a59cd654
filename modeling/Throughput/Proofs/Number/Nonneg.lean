/-
  Throughput/Proofs/Number/Nonneg.lean
  ====================================
  **Results that may be infinite.**  Adding and subtracting finite numbers never makes a
  NaN, though it may lead to infinity, from where no finite number leads back
  (`isFinite_of_isFinite_add`).  A square, a sum of numbers that are not negative, a part
  of such a number and its root are not negative either; a finite one has a finite root
  (`isFinite_sqrt`).
-/
import Throughput.Proofs.Number.Nearest

namespace Throughput.Binary64

variable {x y : Binary64}

theorem isFinite_or_isInfinite (h : x.isNaN = false) :
    x.isFinite = true ∨ x.isInfinite = true := by
  simp only [isNaN, isFinite, isInfinite, decide_eq_false_iff_not, decide_eq_true_eq,
    beq_iff_eq] at *
  omega

theorem isZero_of_isInfinite (h : x.isInfinite = true) : x.isZero = false := by
  rw [isInfinite, beq_iff_eq] at h
  rw [isZero, h]
  rfl

theorem isNaN_infinity (negative : Bool) : (infinity negative).isNaN = false := by
  cases negative <;> rfl

/-- If a sum with a finite number is finite, the other summand is finite too. -/
theorem isFinite_of_isFinite_add (hy : y.isFinite = true) (h : (x + y).isFinite = true) :
    x.isFinite = true := by
  change (add x y).isFinite = true at h
  rcases Nat.lt_trichotomy x.ordinal infinityOrdinal with hlt | heq | hgt
  · exact decide_eq_true hlt
  · have hNaN : x.isNaN = false := by simp [isNaN, heq]
    have hinfinite : x.isInfinite = true := by simp [isInfinite, heq]
    simpa [add, hNaN, isNaN_eq_false hy, hinfinite, isInfinite_eq_false hy] using h
  · have hNaN : x.isNaN = true := decide_eq_true hgt
    simpa [add, hNaN] using h

/-! ### Numbers that are not negative -/

/-- Not below zero; infinity is allowed. -/
structure IsNonneg (x : Binary64) : Prop where
  isNaN : x.isNaN = false
  key : 0 ≤ x.numericKey

theorem isNonneg_iff : IsNonneg x ↔ numericLe (zero false) x = true := by
  have hzero : (zero false).numericKey = 0 := rfl
  have hzero' : (zero false).isNaN = false := rfl
  rw [numericLe, hzero, hzero']
  constructor
  · rintro ⟨hNaN, hkey⟩
    simp [hNaN, hkey]
  · intro h
    simp only [Bool.not_false, Bool.true_and, Bool.and_eq_true, Bool.not_eq_true',
      decide_eq_true_eq] at h
    exact ⟨h.1, h.2⟩

theorem isNonneg_of_not_negative (hNaN : x.isNaN = false) (h : x.negative = false) :
    IsNonneg x := by
  refine ⟨hNaN, ?_⟩
  rw [numericKey_of_not_negative h]
  exact Int.natCast_nonneg _

theorem IsNonneg.isZero_of_negative (h : IsNonneg x) (hsign : x.negative = true) :
    x.isZero = true := by
  have hkey := h.key
  rw [numericKey_of_negative hsign] at hkey
  rw [isZero, beq_iff_eq]
  omega

theorem IsNonneg.negative_of_isInfinite (h : IsNonneg x) (hinf : x.isInfinite = true) :
    x.negative = false := by
  by_contra hsign
  have hzero := h.isZero_of_negative (by simpa using hsign)
  rw [isZero_of_isInfinite hinf] at hzero
  cases hzero

theorem isNonneg_iff_signedUnits (hx : x.isFinite = true) : IsNonneg x ↔ 0 ≤ x.signedUnits := by
  rw [isNonneg_iff, numericLe_iff rfl hx, signedUnits_zero]

theorem IsNearest.isNonneg {z : Binary64} {t : Int} {d : Nat} (h : IsNearest z t d) (ht : 0 ≤ t) :
    IsNonneg z := by
  refine ⟨h.isNaN, ?_⟩
  have hmono := nearestKey_mono h.pos ht
  have hzero := nearestKey_natCast h.pos 0
  rw [nearestOrdinal_zero h.pos] at hzero
  rw [h.key]
  exact hzero.symm.trans_le hmono

theorem add_of_isInfinite (hx : x.isInfinite = true) (hNaN : x.isNaN = false)
    (hy : y.isNaN = false) (hsame : y.isInfinite = true → x.negative = y.negative) : x + y = x := by
  change add x y = x
  rw [add, hNaN, hy, hx]
  cases hinf : y.isInfinite with
  | false => rfl
  | true => simp [hsame hinf]

theorem add_of_isInfinite_right (hx : x.isFinite = true) (hinf : y.isInfinite = true)
    (hNaN : y.isNaN = false) : x + y = y := by
  change add x y = y
  rw [add, isNaN_eq_false hx, hNaN, isInfinite_eq_false hx, hinf]
  rfl

theorem isNaN_add (hx : x.isNaN = false) (hy : y.isFinite = true) : (x + y).isNaN = false := by
  rcases isFinite_or_isInfinite hx with hfinite | hinf
  · exact (isNearest_add hfinite hy).isNaN
  · rw [add_of_isInfinite hinf hx (isNaN_eq_false hy)]
    · exact hx
    · intro h
      rw [isInfinite_eq_false hy] at h
      cases h

theorem isNaN_sub (hx : x.isFinite = true) (hy : y.isNaN = false) : (x - y).isNaN = false := by
  rcases isFinite_or_isInfinite hy with hfinite | hinf
  · exact (isNearest_sub hx hfinite).isNaN
  · have hsub : x - y = y.neg := by
      change sub x y = y.neg
      rw [sub, hy]
      exact add_of_isInfinite_right hx hinf hy
    rw [hsub]
    exact hy

theorem isNonneg_add (hx : IsNonneg x) (hy : IsNonneg y) : IsNonneg (x + y) := by
  rcases isFinite_or_isInfinite hx.isNaN with hfinite | hinf
  · rcases isFinite_or_isInfinite hy.isNaN with hfinite' | hinf'
    · apply (isNearest_add hfinite hfinite').isNonneg
      rw [isNonneg_iff_signedUnits hfinite] at hx
      rw [isNonneg_iff_signedUnits hfinite'] at hy
      omega
    · rw [add_of_isInfinite_right hfinite hinf' hy.isNaN]
      exact hy
  · rw [add_of_isInfinite hinf hx.isNaN hy.isNaN]
    · exact hx
    · intro hinf'
      rw [hx.negative_of_isInfinite hinf, hy.negative_of_isInfinite hinf']

theorem isNonneg_infinity : IsNonneg (infinity false) :=
  isNonneg_of_not_negative (isNaN_infinity false) rfl

theorem isNonneg_mul_self (hx : x.isNaN = false) : IsNonneg (x * x) := by
  rcases isFinite_or_isInfinite hx with hfinite | hinf
  · exact (isNearest_mul hfinite hfinite).isNonneg (mul_self_nonneg _)
  · have hmul : x * x = infinity false := by
      change mul x x = _
      simp [mul, hx, hinf, isZero_of_isInfinite hinf]
    rw [hmul]
    exact isNonneg_infinity

theorem negative_of_signedUnits_pos (h : 0 < x.signedUnits) : x.negative = false := by
  by_contra hsign
  rw [signedUnits_of_negative (by simpa using hsign)] at h
  omega

theorem isNaN_div (hx : x.isNaN = false) (hy : y.isFinite = true) (hpos : 0 < y.signedUnits) :
    (x / y).isNaN = false := by
  rcases isFinite_or_isInfinite hx with hfinite | hinf
  · exact (isNearest_div hfinite hy hpos).isNaN
  · change (div x y).isNaN = false
    simp only [div, hx, isNaN_eq_false hy, hinf, isInfinite_eq_false hy, Bool.false_eq_true,
      if_false, if_true]
    exact isNaN_infinity _

theorem isNonneg_div (hx : IsNonneg x) (hy : y.isFinite = true) (hpos : 0 < y.signedUnits) :
    IsNonneg (x / y) := by
  rcases isFinite_or_isInfinite hx.isNaN with hfinite | hinf
  · apply (isNearest_div hfinite hy hpos).isNonneg
    rw [isNonneg_iff_signedUnits hfinite] at hx
    exact Int.mul_nonneg hx (Int.natCast_nonneg _)
  · have hdiv : x / y = infinity false := by
      change div x y = _
      simp [div, hx.isNaN, isNaN_eq_false hy, hinf, isInfinite_eq_false hy,
        hx.negative_of_isInfinite hinf, negative_of_signedUnits_pos hpos]
    rw [hdiv]
    exact isNonneg_infinity

/-! ### Roots -/

theorem wholeRootBelow_mul_self_le (digits n : Nat) :
    wholeRootBelow digits n * wholeRootBelow digits n ≤ n := by
  induction digits generalizing n with
  | zero => exact Nat.zero_le n
  | succ digits ih =>
    have hquarter := ih (n / 4)
    simp only [wholeRootBelow]
    generalize wholeRootBelow digits (n / 4) = root at hquarter
    split_ifs with hnext
    · exact hnext
    · have hsquare : 2 * root * (2 * root) = 4 * (root * root) := by ring
      omega

/-- The root of a number that is not negative: the number itself, if it is zero or
    infinity, or else what is nearest to its root. -/
theorem sqrt_cases (hx : IsNonneg x) : x.sqrt = x ∨ ∃ root half, half ≤ 1 ∧
    root * root ≤ x.units * unitsPerOne ∧ x.sqrt = ofUnits false (2 * root + half) 2 := by
  cases hzero : x.isZero with
  | true =>
    left
    simp [sqrt, hzero]
  | false =>
    have hsign : x.negative = false := by
      by_contra hsign
      have hzero' := hx.isZero_of_negative (by simpa using hsign)
      rw [hzero] at hzero'
      cases hzero'
    cases hinf : x.isInfinite with
    | true =>
      left
      simp [sqrt, hx.isNaN, hzero, hsign, hinf]
    | false =>
      right
      have hsqrt : x.sqrt = ofUnits false (2 * wholeRoot (x.units * unitsPerOne) +
          if wholeRoot (x.units * unitsPerOne) * wholeRoot (x.units * unitsPerOne) =
            x.units * unitsPerOne then 0 else 1) 2 := by
        simp only [sqrt, hx.isNaN, hzero, hsign, hinf, Bool.or_self, Bool.false_eq_true, if_false]
      refine ⟨_, _, ?_, wholeRootBelow_mul_self_le _ _, hsqrt⟩
      split_ifs <;> omega

theorem isNonneg_sqrt (hx : IsNonneg x) : IsNonneg x.sqrt := by
  rcases sqrt_cases hx with hsame | ⟨root, half, -, -, hroot⟩
  · rw [hsame]
    exact hx
  · rw [hroot]
    apply isNonneg_of_not_negative _ rfl
    rw [isNaN, decide_eq_false_iff_not]
    exact Nat.not_lt.2 (Nat.min_le_left _ _)

theorem unitsPerOne_lt_greatest : unitsPerOne < unitsAt (infinityOrdinal - 1) := by
  rw [← units_one]
  apply unitsAt_strictMono
  decide +kernel

theorem isFinite_sqrt (hx : IsNonneg x) (hfinite : x.isFinite = true) : x.sqrt.isFinite = true := by
  rcases sqrt_cases hx with hsame | ⟨root, half, hhalf, hsquare, hroot⟩
  · rw [hsame]
    exact hfinite
  · rw [hroot]
    have hgreatest : x.units ≤ unitsAt (infinityOrdinal - 1) :=
      unitsAt_mono (Nat.le_sub_one_of_lt (of_decide_eq_true hfinite))
    have hone := unitsPerOne_lt_greatest
    apply decide_eq_true
    apply nearestOrdinal_lt (by decide : 0 < 2)
    generalize unitsAt (infinityOrdinal - 1) = greatest at hgreatest hone
    have hlt : root < greatest := by
      apply Nat.mul_self_lt_mul_self_iff.1
      calc root * root ≤ x.units * unitsPerOne := hsquare
        _ ≤ greatest * unitsPerOne := Nat.mul_le_mul_right _ hgreatest
        _ < greatest * greatest := Nat.mul_lt_mul_of_pos_left hone (by omega)
    omega

end Throughput.Binary64
