/-
  Throughput/Proofs/Number/Pointed.lean
  =====================================
  **Numbers with a point read back.**  The pointed form of a finite number is its sign and
  digits on both sides of a point, and the digits are read as its magnitude
  (`Binary64.exists_isPointed`).  A zero is put behind the point exactly if the shortest
  digits have none: whole numbers lie on the grid of the ones (`exponent_shortest_nonneg`),
  and a number that is not whole is not the nearest one to any whole number
  (`exponent_shortest_neg`).
-/
import Throughput.Proofs.Number.Arithmetic
import Throughput.Proofs.Number.PlainText

namespace Throughput

open Binary64 (unitsAt unitsPerOne)

/-! ### Whole numbers -/

namespace Digits

variable {tie : Tie} {ordinal : Nat}

/-- The places behind the binary point. -/
theorem exists_unitsPerOne_eq : ∃ places, places = 1074 ∧ unitsPerOne = 2 ^ places :=
  ⟨1074, rfl, by
    unfold unitsPerOne
    generalize 1074 = places
    rfl⟩

/-- A whole number is written without a fraction: it lies on the grid of the ones. -/
theorem exponent_shortest_nonneg (tie : Tie) (hpos : 0 < ordinal) (hlt : ordinal < infinityOrdinal)
    (hwhole : unitsPerOne ∣ unitsAt ordinal) : 0 ≤ (shortest tie ordinal).exponent := by
  obtain ⟨hreached, hleast⟩ := finestExponent_bounds ordinal
  rcases Int.lt_or_le 0 (finestExponent (unitsAt ordinal).log2) with hfinest | hfinest
  · obtain ⟨n, found, hfound, -, hle⟩ :=
      exists_searchFrom hreached hleast (isSome_candidate?_finest hpos hlt tie)
    rw [shortest, hfound]
    exact Int.le_trans hfinest.le hle
  · have hunits := Binary64.unitsAt_pos hpos
    have hlog : 1074 ≤ (unitsAt ordinal).log2 := by
      obtain ⟨places, hplaces, hone⟩ := exists_unitsPerOne_eq
      rw [← hplaces]
      rw [hone] at hwhole
      exact (Nat.le_log2 hunits.ne').2 (Nat.le_of_dvd hunits hwhole)
    have habove : 0 ≤ exponentAbove ordinal := by
      rw [exponentAbove]
      omega
    have hgrid : (gridStep 0).1 ∣ 2 * unitsAt ordinal * (gridStep 0).2 := by
      rw [gridStep_of_nonneg (Int.le_refl 0), Int.toNat_zero, Nat.pow_zero, Nat.one_mul,
        Nat.mul_one]
      exact Nat.mul_dvd_mul_left 2 hwhole
    obtain ⟨n, found, hfound, -, hle⟩ :=
      exists_searchFrom (show exponentAbove ordinal - (21 : Nat) < 0 by omega) habove
        (isSome_candidate?_of_dvd hpos hgrid tie)
    rw [shortest, hfound]
    exact hle

/-- A number that is not whole is less than `2 ^ 52`, and so is the next one at most. -/
theorem unitsAt_succ_le (h : ¬unitsPerOne ∣ unitsAt ordinal) :
    unitsAt (ordinal + 1) ≤ 2 ^ 52 * unitsPerOne := by
  obtain ⟨step, significand, hbinade, rfl⟩ := Binary64.exists_binade ordinal
  have hstep : step < 1074 := by
    by_contra hfar
    obtain ⟨places, hplaces, hone⟩ := exists_unitsPerOne_eq
    refine h ?_
    rw [hbinade.unitsAt_eq, hone]
    exact Dvd.dvd.mul_left (Nat.pow_dvd_pow 2 (by omega)) significand
  rw [hbinade.unitsAt_succ]
  calc (significand + 1) * 2 ^ step ≤ 2 ^ 53 * 2 ^ 1073 :=
        Nat.mul_le_mul hbinade.significand_lt (Nat.pow_le_pow_right (by decide) (by omega))
    _ = 2 ^ 52 * unitsPerOne := by decide +kernel

/-- A number that is not whole is written with a fraction: whole numbers of its size are
    numbers themselves. -/
theorem exponent_shortest_neg (tie : Tie) (hpos : 0 < ordinal) (hlt : ordinal < infinityOrdinal)
    (hwhole : ¬unitsPerOne ∣ unitsAt ordinal) : (shortest tie ordinal).exponent < 0 := by
  have hholds := shortest_holds tie hpos hlt
  generalize shortest tie ordinal = d at hholds
  by_contra hexponent
  rw [gridStep_of_nonneg (by omega)] at hholds
  have hdouble : d.significand * (10 ^ d.exponent.toNat * (2 * unitsPerOne)) =
      2 * (d.significand * 10 ^ d.exponent.toNat * unitsPerOne) := by ring
  simp only [hdouble] at hholds
  generalize d.significand * 10 ^ d.exponent.toNat = n at hholds
  have hn : n < 2 ^ 53 := by
    obtain ⟨-, hupper, -⟩ := (holds_around _ _).1 hholds
    have hnext := unitsAt_succ_le hwhole
    have hmono := (Binary64.unitsAt_lt_succ ordinal).le
    have hle : n * unitsPerOne ≤ 2 ^ 52 * unitsPerOne := by omega
    exact Nat.lt_of_le_of_lt (Nat.le_of_mul_le_mul_right hle Binary64.unitsPerOne_pos) (by decide)
  obtain ⟨place, hplace, hunits⟩ := Binary64.exists_unitsAt_eq hn
  have hsame : place = ordinal := by
    rw [← nearestOrdinal_of_holds Nat.one_pos hlt.le hholds, ← hunits,
      ← Nat.mul_one (unitsAt place)]
    exact (Binary64.nearestOrdinal_unitsAt Nat.one_pos hplace.le).symm
  exact hwhole ⟨n, by rw [← hsame, hunits, Nat.mul_comm]⟩

/-- A zero behind the point takes nothing from the value. -/
theorem toBinary64_tenths {x : Binary64} {d : Digits} (hle : x.ordinal ≤ infinityOrdinal)
    (hsignificand : 0 < d.significand) (hexponent : 0 ≤ d.exponent)
    (h : (Interval.around x.ordinal).holds (gridStep d.exponent).2
      (d.significand * (gridStep d.exponent).1) = true) :
    (Decimal.mk x.negative (d.significand * 10 ^ d.exponent.toNat * 10) (-1)).toBinary64 = x := by
  have hstep : gridStep (-1) = (2 * unitsPerOne, 10) := gridStep_of_neg (by decide)
  have hgrid : d.significand * (10 ^ d.exponent.toNat * (2 * unitsPerOne)) * 10 =
      d.significand * 10 ^ d.exponent.toNat * 10 * (2 * unitsPerOne) := by ring
  rw [gridStep_of_nonneg hexponent, ← Interval.holds_mul (show 0 < 10 by decide), hgrid] at h
  refine toBinary64_decimal_of_holds (d := ⟨_, -1⟩) hle ?_ ?_ ?_
  · exact Nat.mul_pos (Nat.mul_pos hsignificand (Nat.pow_pos (by decide))) (by decide)
  · intro _
    simp only
    omega
  · simp only [hstep]
    exact h

end Digits

/-! ### Pointed numbers -/

namespace Binary64

/-- A number without its sign. -/
def magnitude (x : Binary64) : Binary64 := ⟨false, x.ordinal, x.ordinal_le⟩

theorem isWhole_iff (x : Binary64) : x.isWhole = true ↔ unitsPerOne ∣ unitsAt x.ordinal := by
  rw [isWhole, beq_iff_eq, units, Nat.dvd_iff_mod_eq_zero]

/-- Digits in front of a point and behind it, with nothing but a lonely zero at the front,
    that write a magnitude. -/
structure IsPointed (x : Binary64) (whole fraction : DigitRun) : Prop where
  text_eq : x.pointed.toList = x.signText.toList ++ (whole.digits ++ '.' :: fraction.digits)
  isPlain : whole.IsPlain
  value_eq : ofText? (whole.digits ++ '.' :: fraction.digits) = some x.magnitude

theorem ofText?_pointed (whole fraction : DigitRun) :
    ofText? (whole.digits ++ '.' :: fraction.digits) =
      some (Decimal.mk false (Decimal.ofDigits (whole.digits ++ fraction.digits))
        (-(fraction.digits.length : Int))).toBinary64 := by
  obtain ⟨c, cs, hcs, hc⟩ := whole.exists_cons
  have h := ofText?_of_isDigit (zero false) hc (cs ++ '.' :: fraction.digits)
  rw [← List.cons_append, ← hcs] at h
  have hdecimal := Digits.unsigned?_pointed false whole fraction
  change ofText? (whole.digits ++ '.' :: fraction.digits) =
    (Decimal.unsigned? false (whole.digits ++ '.' :: fraction.digits)).map Decimal.toBinary64 at h
  rw [h, hdecimal, Option.map_some]

theorem pointed_eq_of_isFinite {x : Binary64} (h : x.isFinite = true) :
    x.pointed = if x.isWhole then x.plain ++ ".0" else x.plain := by
  simp only [pointed, isNaN_eq_false h, isInfinite_eq_false h, Bool.false_eq_true, if_false]

theorem plain_eq_of_isFinite {x : Binary64} (h : x.isFinite = true) :
    x.plain = if x.isZero then x.signText ++ "0"
      else x.signText ++ String.ofList (Digits.shortest .upper x.ordinal).positional := by
  simp only [plain, isNaN_eq_false h, isInfinite_eq_false h, Bool.false_eq_true, if_false]

theorem isPointed_of_isZero {x : Binary64} (h : x.isFinite = true) (hzero : x.isZero = true) :
    x.IsPointed .zero .zero := by
  have hordinal : x.ordinal = 0 := beq_iff_eq.1 hzero
  have hwhole : x.isWhole = true := by
    rw [isWhole_iff, hordinal, show unitsAt 0 = 0 from rfl]
    exact Nat.dvd_zero _
  refine ⟨?_, DigitRun.isPlain_ofNat 0, ?_⟩
  · rw [pointed_eq_of_isFinite h, plain_eq_of_isFinite h, hwhole, hzero, if_pos rfl, if_pos rfl]
    simp only [String.toList_append, List.append_assoc]
    rfl
  · have hdigits : Decimal.ofDigits (DigitRun.zero.digits ++ DigitRun.zero.digits) = 0 := by
      decide
    rw [ofText?_pointed, hdigits, Decimal.toBinary64, if_pos rfl]
    exact congrArg some (eq_of_ordinal rfl hordinal.symm)

/-- With a zero behind the point there are ten times as many tenths. -/
theorem ofDigits_shifted_zero (n places : Nat) :
    Decimal.ofDigits (((DigitRun.ofNat n).shifted places).digits ++ DigitRun.zero.digits) =
      n * 10 ^ places * 10 := by
  have hlength : DigitRun.zero.digits.length = 1 := by decide
  have hzero : Decimal.ofDigits DigitRun.zero.digits = 0 := Decimal.ofDigits_digitsOf 0
  have hdigits : Decimal.ofDigits (DigitRun.ofNat n).digits = n := Decimal.ofDigits_digitsOf n
  rw [Decimal.ofDigits_append, DigitRun.ofDigits_shifted, hlength, hzero, hdigits, Nat.pow_one,
    Nat.add_zero]

/-- A whole number has all of its digits in front of the point. -/
theorem exists_isPointed_of_isWhole {x : Binary64} (h : x.isFinite = true)
    (hzero : x.isZero = false) (hwhole : x.isWhole = true) :
    ∃ whole, x.IsPointed whole .zero := by
  have hpos := ordinal_pos hzero
  have hlt : x.ordinal < infinityOrdinal := of_decide_eq_true h
  have hplain := plain_eq_of_isFinite h
  have hexponent := Digits.exponent_shortest_nonneg .upper hpos hlt (x.isWhole_iff.1 hwhole)
  have hsignificand := Digits.significand_shortest_pos .upper hpos hlt
  have hholds := Digits.shortest_holds .upper hpos hlt
  rw [hzero, if_neg (by decide)] at hplain
  generalize Digits.shortest .upper x.ordinal = d at hexponent hsignificand hholds hplain
  refine ⟨(DigitRun.ofNat d.significand).shifted d.exponent.toNat, ?_,
    DigitRun.isPlain_shifted hsignificand _, ?_⟩
  · rw [pointed_eq_of_isFinite h, hplain, hwhole, if_pos rfl, Digits.positional, if_pos hexponent]
    simp only [String.toList_append, String.toList_ofList, DigitRun.shifted, List.append_assoc]
    rfl
  · rw [ofText?_pointed, ofDigits_shifted_zero]
    exact congrArg some
      (Digits.toBinary64_tenths (x := x.magnitude) hlt.le hsignificand hexponent hholds)

/-- A number that is not whole has its shortest digits on both sides of the point. -/
theorem exists_isPointed_of_fraction {x : Binary64} (h : x.isFinite = true)
    (hzero : x.isZero = false) (hwhole : x.isWhole = false) :
    ∃ whole fraction, x.IsPointed whole fraction := by
  have hpos := ordinal_pos hzero
  have hlt : x.ordinal < infinityOrdinal := of_decide_eq_true h
  have hplain := plain_eq_of_isFinite h
  have hexponent := Digits.exponent_shortest_neg .upper hpos hlt
    (fun hdvd => by simp [x.isWhole_iff.2 hdvd] at hwhole)
  have hvalue := Digits.toBinary64_decimal_shortest (x := x.magnitude) hpos hlt .upper
  change ((Digits.shortest .upper x.ordinal).decimal false).toBinary64 = x.magnitude at hvalue
  rw [hzero, if_neg (by decide)] at hplain
  generalize Digits.shortest .upper x.ordinal = d at hexponent hvalue hplain
  obtain ⟨whole, fraction, hrun⟩ :=
    (DigitRun.ofNat d.significand).exists_pointed (show 0 < (-d.exponent).toNat by omega)
  refine ⟨whole, fraction, ?_, hrun.isPlain_whole (DigitRun.isPlain_ofNat _), ?_⟩
  · rw [pointed_eq_of_isFinite h, hplain, hwhole, if_neg (by decide), Digits.positional,
      if_neg (by omega), String.toList_append, String.toList_ofList]
    exact congrArg _ hrun.text_eq
  · have hplaces : -((-d.exponent).toNat : Int) = d.exponent := by omega
    rw [ofText?_pointed, hrun.value_eq, hrun.length_fraction, hplaces, ← hvalue,
      Digits.decimal, if_neg (by omega)]
    congr 3
    exact Decimal.ofDigits_digitsOf d.significand

/-- **The pointed form of a finite number is its sign and digits on both sides of a
    point, which write it.** -/
theorem exists_isPointed {x : Binary64} (h : x.isFinite = true) :
    ∃ whole fraction, x.IsPointed whole fraction := by
  cases hzero : x.isZero with
  | true => exact ⟨.zero, .zero, isPointed_of_isZero h hzero⟩
  | false =>
    cases hwhole : x.isWhole with
    | true =>
      obtain ⟨whole, hpointed⟩ := exists_isPointed_of_isWhole h hzero hwhole
      exact ⟨whole, .zero, hpointed⟩
    | false => exact exists_isPointed_of_fraction h hzero hwhole

end Binary64

end Throughput
