/-
  Throughput/Proofs/Number/Interpolation.lean
  ===========================================
  **Between two numbers.**  A point on the way from one number to another is computed in
  three operations, each of which rounds: the distance, the part of it that is covered,
  and the sum.  The point stays between the two ends all the same, unless the distance
  is out of range (`add_mul_between`).  What makes this true is that the part covered is
  at most `1 - 2 ^ (-53)`: where the distance was rounded up, it lies in a gap so narrow
  that this much less leads below the middle of the gap (`lt_midpoint`).
-/
import Throughput.Proofs.Number.Nearest

namespace Throughput.Binary64

variable {x y : Binary64}

/-! ### Fractions -/

/-- The last binary digits of a magnitude are a magnitude. -/
theorem exists_unitsAt_mod (place digits : Nat) :
    ∃ last ≤ place, unitsAt last = unitsAt place % 2 ^ digits := by
  obtain ⟨last, hlast⟩ : ∃ last, unitsAt last = unitsAt place % 2 ^ digits := by
    obtain ⟨step, significand, h, rfl⟩ := exists_binade place
    rw [h.unitsAt_eq]
    rcases Nat.le_total step digits with hle | hle
    · have hpow : 2 ^ digits = 2 ^ (digits - step) * 2 ^ step := by
        rw [← Nat.pow_add, Nat.sub_add_cancel hle]
      rw [hpow, Nat.mul_mod_mul_right]
      apply exists_unitsAt_mul_pow
      exact Nat.lt_of_le_of_lt (Nat.mod_le _ _) h.significand_lt
    · refine ⟨0, ?_⟩
      have hdvd : 2 ^ digits ∣ significand * 2 ^ step := (Nat.pow_dvd_pow 2 hle).mul_left _
      rw [unitsAt_zero, Nat.mod_eq_zero_of_dvd hdvd]
  refine ⟨last, ?_, hlast⟩
  rw [← unitsAt_strictMono.le_iff_le, hlast]
  exact Nat.mod_le _ _

/-- What a number is above its whole part is a number. -/
theorem isNumber_mod_unitsPerOne (hx : x.isFinite = true) :
    IsNumber (x.units % unitsPerOne : Nat) := by
  obtain ⟨digits, hdigits⟩ : ∃ digits, digits = 1074 := ⟨1074, rfl⟩
  obtain ⟨last, hle, hlast⟩ := exists_unitsAt_mod x.ordinal digits
  rw [units, unitsPerOne_eq_pow hdigits, ← hlast]
  apply isNumber_unitsAt
  exact Nat.lt_of_le_of_lt hle (of_decide_eq_true hx)

/-- A number less its whole part. -/
theorem sub_floor (hx : x.isFinite = true) (h0 : 0 ≤ x.signedUnits) (hfloor : x.floor < 2 ^ 53) :
    (x - ofNat x.floor).isFinite = true ∧
      (x - ofNat x.floor).signedUnits = (x.units % unitsPerOne : Nat) := by
  apply (isNearest_sub hx (ofNat_exact hfloor).1).eq_of_isNumber (isNumber_mod_unitsPerOne hx)
  rw [signedUnits_of_nonneg h0, signedUnits_ofNat hfloor, Nat.cast_one, Int.mul_one, floor,
    Nat.mod_eq_sub_div_mul]
  have hle := Nat.div_mul_le_self x.units unitsPerOne
  generalize x.units / unitsPerOne * unitsPerOne = whole at hle ⊢
  omega

/-- What is below a power of two is below it by at least a part in `2 ^ 53`. -/
theorem unitsAt_le_of_lt_pow {place step : Nat} (h : unitsAt place < 2 ^ 53 * 2 ^ step) :
    2 ^ 53 * unitsAt place ≤ (2 ^ 53 - 1) * (2 ^ 53 * 2 ^ step) := by
  have hend : unitsAt (step * 2 ^ 52 + 2 ^ 53) = 2 ^ 53 * 2 ^ step :=
    unitsAt_eq (Nat.le_refl _) (.inr (by decide))
  have hlast : unitsAt (step * 2 ^ 52 + (2 ^ 53 - 1)) = (2 ^ 53 - 1) * 2 ^ step :=
    unitsAt_eq (by decide) (.inr (by decide))
  rw [← hend, unitsAt_strictMono.lt_iff_lt] at h
  have hle : place ≤ step * 2 ^ 52 + (2 ^ 53 - 1) := by omega
  have hunits := unitsAt_mono hle
  rw [hlast] at hunits
  omega

theorem units_le_of_lt_one (h : x.units < unitsPerOne) :
    2 ^ 53 * x.units ≤ (2 ^ 53 - 1) * unitsPerOne := by
  obtain ⟨step, hstep⟩ : ∃ step, 53 + step = 1074 := ⟨1021, rfl⟩
  rw [unitsPerOne_eq_pow hstep, Nat.pow_add] at h ⊢
  exact unitsAt_le_of_lt_pow h

/-! ### A step that was rounded up -/

/-- A whole number that is rounded up lies in a gap that is a small part of it. -/
theorem gap_of_rounded_up {n : Nat} (hup : n < unitsAt (nearestOrdinal n 1)) :
    ∃ place, nearestOrdinal n 1 = place + 1 ∧ unitsAt place ≤ n ∧
      2 ^ 52 * (unitsAt (place + 1) - unitsAt place) < unitsAt (place + 1) := by
  obtain ⟨place, hplace⟩ : ∃ place, nearestOrdinal n 1 = place + 1 := by
    apply Nat.exists_eq_add_one_of_ne_zero
    intro hzero
    rw [hzero, unitsAt_zero] at hup
    exact Nat.not_lt_zero _ hup
  have hrange : place + 1 ≤ infinityOrdinal := by
    rw [← hplace]
    exact Nat.min_le_left _ _
  have hself : nearestOrdinal (unitsAt place) 1 = place := by
    have hself := nearestOrdinal_unitsAt Nat.one_pos (Nat.le_of_succ_le hrange)
    rwa [Nat.mul_one] at hself
  have hlt : unitsAt place < n := by
    by_contra hle
    have hmono := nearestOrdinal_mono Nat.one_pos (Nat.le_of_not_lt hle)
    omega
  refine ⟨place, hplace, hlt.le, ?_⟩
  rw [hplace] at hup
  obtain ⟨step, significand, h, rfl⟩ := exists_binade place
  rw [h.unitsAt_succ] at hup
  rw [h.unitsAt_eq] at hlt
  rw [h.unitsAt_eq, h.unitsAt_succ]
  have hgap : (significand + 1) * 2 ^ step - significand * 2 ^ step = 2 ^ step := by
    rw [Nat.add_mul, Nat.one_mul, Nat.add_sub_cancel_left]
  rw [hgap]
  apply Nat.mul_lt_mul_of_pos_right _ (Nat.two_pow_pos _)
  rcases h.normal with rfl | hnormal
  · -- between neighbours one unit apart there is no whole number
    omega
  · omega

/-- Less than a part in `2 ^ 53` of the upper end leads below the middle of such a gap. -/
theorem lt_midpoint {lower upper covered one : Nat} (hlt : lower < upper)
    (hgap : 2 ^ 52 * (upper - lower) < upper) (hbelow : 2 ^ 53 * covered ≤ (2 ^ 53 - 1) * one)
    (hone : 0 < one) : 2 * (upper * covered) < (lower + upper) * one := by
  obtain ⟨gap, rfl⟩ := Nat.exists_eq_add_of_le hlt.le
  rw [Nat.add_sub_cancel_left] at hgap
  have hloss := Nat.mul_lt_mul_of_pos_right hgap hone
  have hcovered := Nat.mul_le_mul_left (lower + gap) hbelow
  have hwhole : (lower + gap) * ((2 ^ 53 - 1) * one) + (lower + gap) * one =
      2 ^ 53 * ((lower + gap) * one) := by ring
  have hscaled : (lower + gap) * (2 ^ 53 * covered) = 2 ^ 53 * ((lower + gap) * covered) := by ring
  have hsplit : (lower + (lower + gap)) * one + gap * one = 2 * ((lower + gap) * one) := by ring
  rw [Nat.mul_assoc] at hloss
  omega

theorem ordinal_mul_comm (hx : x.isFinite = true) (hy : y.isFinite = true) :
    (x * y).ordinal = (y * x).ordinal := by
  rw [ordinal_mul hx hy, ordinal_mul hy hx, productOrdinal, productOrdinal, Nat.mul_comm]

/-- **Part of the way does not lead past the end.**  A distance is rounded, and then
    multiplied with a number below one: what is covered is at most the distance. -/
theorem units_mul_le {gap part : Binary64} {n : Nat} (hgap : gap.isFinite = true)
    (hnear : gap.ordinal = nearestOrdinal n 1) (hpart : part.units < unitsPerOne) :
    (gap * part).units ≤ n := by
  have hone : part.ordinal ≤ (ofNat 1).ordinal := by
    rw [← unitsAt_strictMono.le_iff_le]
    exact hpart.le.trans_eq units_one.symm
  have hfinite := isFinite_of_ordinal_le (ofNat_exact (by decide : 1 < 2 ^ 53)).1 hone
  rcases Nat.lt_or_ge n gap.units with hup | hdown
  · -- the distance was rounded up, so the way is at most to the place below
    rw [units, hnear] at hup
    obtain ⟨place, hplace, hle, hsmall⟩ := gap_of_rounded_up hup
    have hrange : place + 1 ≤ infinityOrdinal := by
      rw [← hplace]
      exact Nat.min_le_left _ _
    rw [units, ordinal_mul hgap hfinite, productOrdinal]
    refine Nat.le_trans (unitsAt_mono ?_) hle
    apply nearestOrdinal_le_of_lt_midpoint unitsPerOne_pos (Nat.le_of_succ_le hrange)
    rw [units, hnear, hplace]
    exact lt_midpoint (unitsAt_lt_succ place) hsmall (units_le_of_lt_one hpart) unitsPerOne_pos
  · rw [units, ordinal_mul_comm hgap hfinite]
    exact Nat.le_trans (unitsAt_mono (ordinal_mul_le hone hgap)) hdown

/-- **A point between two numbers stays between them.** -/
theorem add_mul_between {low high part : Binary64} (hlow : low.isFinite = true)
    (hhigh : high.isFinite = true) (hle : low.signedUnits ≤ high.signedUnits)
    (hgap : (high - low).isFinite = true) (hnonneg : 0 ≤ part.signedUnits)
    (hpart : part.units < unitsPerOne) :
    (low + (high - low) * part).isFinite = true ∧
      low.signedUnits ≤ (low + (high - low) * part).signedUnits ∧
      (low + (high - low) * part).signedUnits ≤ high.signedUnits := by
  have hdistance := isNearest_sub hhigh hlow
  generalize high - low = gap at hgap hdistance ⊢
  obtain ⟨n, hn⟩ := Int.eq_ofNat_of_zero_le (Int.sub_nonneg_of_le hle)
  rw [hn] at hdistance
  have hplace : gap.ordinal = nearestOrdinal n 1 := by
    rw [← natAbs_numericKey, hdistance.key, nearestKey_natCast Nat.one_pos, Int.natAbs_natCast]
  have hone : part.ordinal ≤ (ofNat 1).ordinal := by
    rw [← unitsAt_strictMono.le_iff_le]
    exact hpart.le.trans_eq units_one.symm
  have hfinite := isFinite_of_ordinal_le (ofNat_exact (by decide : 1 < 2 ^ 53)).1 hone
  have hway := isNearest_mul hgap hfinite
  have hcovered := units_mul_le hgap hplace hpart
  have hwayFinite : (gap * part).isFinite = true := by
    apply isFinite_of_ordinal_le hgap
    rw [ordinal_mul_comm hgap hfinite]
    exact ordinal_mul_le hone hgap
  have hforward : 0 ≤ (gap * part).signedUnits := by
    apply hway.ge_of_ge isNumber_zero
    have hgapNonneg := hdistance.ge_of_ge isNumber_zero (by omega)
    rw [Int.zero_mul]
    exact Int.mul_nonneg hgapNonneg hnonneg
  have hunits := signedUnits_of_nonneg hforward
  apply (isNearest_add hlow hwayFinite).between (isNumber_signedUnits hlow)
    (isNumber_signedUnits hhigh)
  · omega
  · omega

end Throughput.Binary64
