/-
  Throughput/Proofs/Number/Nearest.lean
  =====================================
  **Operations on the number line.**  A sum, a difference, a product or a quotient of
  finite numbers is the number nearest to the exact result (`isNearest_add` and its
  kin).  So a result between two numbers stays between them after the rounding, and is
  finite (`IsNearest.between`); and a finite result is off by at most one part in
  `2 ^ 53`, or by half a unit where it is smaller than that (`IsNearest.error`).
-/
import Mathlib.Algebra.Order.Field.Basic
import Mathlib.Data.Int.Order.Basic
import Mathlib.Data.Rat.Cast.Order
import Mathlib.Tactic.FieldSimp
import Mathlib.Tactic.Positivity
import Throughput.Proofs.Number.Arithmetic

namespace Throughput.Binary64

/-! ### Both signs -/

/-- A function of magnitudes, on both sides of zero. -/
def signed (f : Nat → Nat) (t : Int) : Int := t.sign * f t.natAbs

section Signed

variable {f : Nat → Nat}

theorem signed_natCast (h0 : f 0 = 0) (n : Nat) : signed f n = f n := by
  rcases Nat.eq_zero_or_pos n with rfl | hpos
  · simp [signed, h0]
  · simp [signed, Int.sign_eq_one_of_pos (Int.natCast_pos.2 hpos)]

theorem signed_neg (f : Nat → Nat) (t : Int) : signed f (-t) = -signed f t := by
  rw [signed, signed, Int.sign_neg, Int.natAbs_neg, Int.neg_mul]

theorem signed_lt (h0 : f 0 = 0) (h : StrictMono f) {s t : Int} (hst : s < t) :
    signed f s < signed f t := by
  rcases Int.eq_nat_or_neg s with ⟨m, rfl | rfl⟩ <;>
    rcases Int.eq_nat_or_neg t with ⟨n, rfl | rfl⟩ <;>
    simp only [signed_neg, signed_natCast h0]
  · have hlt := h (show m < n by omega)
    omega
  · omega
  · have hle : f 0 ≤ f n := h.monotone (Nat.zero_le n)
    rcases Nat.eq_zero_or_pos m with rfl | hpos
    · have hlt := h (show 0 < n by omega)
      omega
    · have hlt := h hpos
      omega
  · have hlt := h (show n < m by omega)
    omega

theorem signed_le (h0 : f 0 = 0) (h : Monotone f) {s t : Int} (hst : s ≤ t) :
    signed f s ≤ signed f t := by
  rcases Int.eq_nat_or_neg s with ⟨m, rfl | rfl⟩ <;>
    rcases Int.eq_nat_or_neg t with ⟨n, rfl | rfl⟩ <;>
    simp only [signed_neg, signed_natCast h0]
  · have hle := h (show m ≤ n by omega)
    omega
  · obtain rfl : m = 0 := by omega
    obtain rfl : n = 0 := by omega
    omega
  · omega
  · have hle := h (show n ≤ m by omega)
    omega

end Signed

/-! ### The number line -/

/-- The value at a place of the number line, in units. -/
def unitsOfKey (key : Int) : Int := signed unitsAt key

theorem unitsAt_zero : unitsAt 0 = 0 := rfl

theorem unitsOfKey_natCast (place : Nat) : unitsOfKey place = unitsAt place :=
  signed_natCast unitsAt_zero place

theorem unitsOfKey_neg (key : Int) : unitsOfKey (-key) = -unitsOfKey key := signed_neg _ _

theorem unitsOfKey_le_iff {s t : Int} : unitsOfKey s ≤ unitsOfKey t ↔ s ≤ t := by
  constructor
  · intro h
    by_contra hlt
    have hunits : unitsOfKey t < unitsOfKey s :=
      signed_lt unitsAt_zero unitsAt_strictMono (Int.not_le.1 hlt)
    omega
  · exact signed_le unitsAt_zero unitsAt_strictMono.monotone

section Keys

variable {x y : Binary64}

theorem numericKey_of_negative (h : x.negative = true) : x.numericKey = -x.ordinal := if_pos h

theorem numericKey_of_not_negative (h : x.negative = false) : x.numericKey = x.ordinal :=
  if_neg (Bool.eq_false_iff.1 h)

theorem signedUnits_of_negative (h : x.negative = true) : x.signedUnits = -x.units := if_pos h

theorem signedUnits_of_not_negative (h : x.negative = false) : x.signedUnits = x.units :=
  if_neg (Bool.eq_false_iff.1 h)

theorem signedUnits_eq (x : Binary64) : x.signedUnits = unitsOfKey x.numericKey := by
  cases hsign : x.negative with
  | false =>
    rw [signedUnits_of_not_negative hsign, numericKey_of_not_negative hsign, unitsOfKey_natCast,
      units]
  | true =>
    rw [signedUnits_of_negative hsign, numericKey_of_negative hsign, unitsOfKey_neg,
      unitsOfKey_natCast, units]

theorem signedUnits_le_iff : x.signedUnits ≤ y.signedUnits ↔ x.numericKey ≤ y.numericKey := by
  rw [signedUnits_eq, signedUnits_eq, unitsOfKey_le_iff]

theorem natAbs_numericKey (x : Binary64) : x.numericKey.natAbs = x.ordinal := by
  unfold numericKey
  split_ifs <;> omega

theorem natAbs_signedUnits (x : Binary64) : x.signedUnits.natAbs = x.units := by
  unfold signedUnits
  split_ifs <;> omega

theorem signedUnits_neg (x : Binary64) : x.neg.signedUnits = -x.signedUnits := by
  unfold signedUnits neg
  cases x.negative <;> simp [units]

/-- A number that is not negative is its own magnitude. -/
theorem signedUnits_of_nonneg (h : 0 ≤ x.signedUnits) : x.signedUnits = x.units := by
  rw [← natAbs_signedUnits, Int.natAbs_of_nonneg h]

theorem signedUnits_ofNat {n : Nat} (hn : n < 2 ^ 53) :
    (ofNat n).signedUnits = (n * unitsPerOne : Nat) := by
  rw [signedUnits_of_not_negative rfl, (ofNat_exact hn).2]

/-- Numbers compare as their values do. -/
theorem numericLe_iff (hx : x.isFinite = true) (hy : y.isFinite = true) :
    numericLe x y = true ↔ x.signedUnits ≤ y.signedUnits := by
  rw [numericLe, isNaN_eq_false hx, isNaN_eq_false hy, signedUnits_le_iff]
  simp

end Keys

/-! ### The nearest number -/

/-- The place on the number line nearest to `t / d` units. -/
def nearestKey (t : Int) (d : Nat) : Int := signed (nearestOrdinal · d) t

section NearestKey

variable {d : Nat}

theorem nearestOrdinal_zero (hd : 0 < d) : nearestOrdinal 0 d = 0 := by
  have h : nearestOrdinal (unitsAt 0 * d) d = 0 := nearestOrdinal_unitsAt hd (Nat.zero_le _)
  rwa [unitsAt_zero, Nat.zero_mul] at h

theorem nearestKey_natCast (hd : 0 < d) (n : Nat) : nearestKey n d = nearestOrdinal n d :=
  signed_natCast (f := (nearestOrdinal · d)) (nearestOrdinal_zero hd) n

theorem nearestKey_neg (t : Int) : nearestKey (-t) d = -nearestKey t d := signed_neg _ _

theorem nearestKey_mono (hd : 0 < d) {s t : Int} (h : s ≤ t) : nearestKey s d ≤ nearestKey t d :=
  signed_le (f := (nearestOrdinal · d)) (nearestOrdinal_zero hd)
    (fun _ _ => nearestOrdinal_mono hd) h

/-- A number is rounded to itself. -/
theorem nearestKey_unitsOfKey (hd : 0 < d) {key : Int} (h : key.natAbs ≤ infinityOrdinal) :
    nearestKey (unitsOfKey key * d) d = key := by
  have hplace : ∀ place : Nat, place ≤ infinityOrdinal →
      nearestKey (unitsOfKey place * d) d = place := by
    intro place hle
    rw [unitsOfKey_natCast, ← Nat.cast_mul, nearestKey_natCast hd, nearestOrdinal_unitsAt hd hle]
  rcases Int.eq_nat_or_neg key with ⟨place, rfl | rfl⟩
  · exact hplace place (by omega)
  · rw [unitsOfKey_neg, Int.neg_mul, nearestKey_neg, hplace place (by omega)]

end NearestKey

/-- The number nearest to `t / d` units, or the infinity of its sign. -/
structure IsNearest (z : Binary64) (t : Int) (d : Nat) : Prop where
  pos : 0 < d
  isNaN : z.isNaN = false
  key : z.numericKey = nearestKey t d

/-- So many units are the value of a finite number. -/
def IsNumber (t : Int) : Prop := ∃ w : Binary64, w.isFinite = true ∧ w.signedUnits = t

theorem isNumber_signedUnits {x : Binary64} (hx : x.isFinite = true) : IsNumber x.signedUnits :=
  ⟨x, hx, rfl⟩

theorem signedUnits_zero (negative : Bool) : (zero negative).signedUnits = 0 := by
  cases negative <;> simp [signedUnits, units, zero, unitsAt_zero]

theorem isNumber_zero : IsNumber 0 := ⟨zero false, rfl, signedUnits_zero false⟩

theorem IsNumber.neg {t : Int} (h : IsNumber t) : IsNumber (-t) := by
  obtain ⟨w, hw, rfl⟩ := h
  exact ⟨w.neg, hw, signedUnits_neg w⟩

theorem isNumber_unitsAt {place : Nat} (h : place < infinityOrdinal) : IsNumber (unitsAt place) :=
  ⟨⟨false, place, Nat.le_succ_of_le h.le⟩, decide_eq_true h, rfl⟩

/-- A whole number of 53 binary digits, scaled, is a number as long as it is in range. -/
theorem isNumber_mul_pow {n e : Nat} (hn : n < 2 ^ 53) (he : e ≤ 2045) :
    IsNumber (n * 2 ^ e : Nat) := by
  obtain ⟨place, hplace, hunits⟩ := exists_finite_mul_pow hn he
  rw [← hunits]
  exact isNumber_unitsAt hplace

/-- What lies between finite numbers is finite. -/
theorem isFinite_of_between {x : Binary64} {lo hi : Int} (hlo : IsNumber lo) (hhi : IsNumber hi)
    (hlower : lo ≤ x.signedUnits) (hupper : x.signedUnits ≤ hi) : x.isFinite = true := by
  obtain ⟨v, hv, rfl⟩ := hlo
  obtain ⟨w, hw, rfl⟩ := hhi
  rw [signedUnits_le_iff] at hlower hupper
  simp only [isFinite, decide_eq_true_eq, ← natAbs_numericKey] at *
  omega

namespace IsNearest

variable {z : Binary64} {t : Int} {d : Nat}

theorem of_ofUnits (hd : 0 < d) {negative : Bool}
    (hsign : if negative = true then t ≤ 0 else 0 ≤ t) :
    IsNearest (ofUnits negative t.natAbs d) t d := by
  refine ⟨hd, ?_, ?_⟩
  · rw [Binary64.isNaN, decide_eq_false_iff_not]
    exact Nat.not_lt.2 (Nat.min_le_left _ _)
  · cases negative with
    | false =>
      obtain ⟨n, rfl⟩ := Int.eq_ofNat_of_zero_le hsign
      rw [numericKey_of_not_negative rfl, nearestKey_natCast hd]
      rfl
    | true =>
      obtain ⟨n, hn⟩ := Int.eq_ofNat_of_zero_le (Int.neg_nonneg_of_nonpos hsign)
      obtain rfl : t = -n := by omega
      rw [numericKey_of_negative rfl, nearestKey_neg, nearestKey_natCast hd, Int.natAbs_neg]
      rfl

variable (h : IsNearest z t d)
include h

theorem key_of_number {w : Binary64} (hw : w.isFinite = true) :
    nearestKey (w.signedUnits * d) d = w.numericKey := by
  rw [signedUnits_eq]
  apply nearestKey_unitsOfKey h.pos
  rw [natAbs_numericKey]
  exact (of_decide_eq_true hw : _ < _).le

theorem le_of_le {hi : Int} (hhi : IsNumber hi) (hle : t ≤ hi * d) : z.signedUnits ≤ hi := by
  obtain ⟨w, hw, rfl⟩ := hhi
  have hmono := nearestKey_mono h.pos hle
  rw [h.key_of_number hw, ← h.key] at hmono
  exact signedUnits_le_iff.2 hmono

theorem ge_of_ge {lo : Int} (hlo : IsNumber lo) (hge : lo * d ≤ t) : lo ≤ z.signedUnits := by
  obtain ⟨w, hw, rfl⟩ := hlo
  have hmono := nearestKey_mono h.pos hge
  rw [h.key_of_number hw, ← h.key] at hmono
  exact signedUnits_le_iff.2 hmono

/-- **Rounding does not lead out of an interval of numbers.** -/
theorem between {lo hi : Int} (hlo : IsNumber lo) (hhi : IsNumber hi) (hlower : lo * d ≤ t)
    (hupper : t ≤ hi * d) : z.isFinite = true ∧ lo ≤ z.signedUnits ∧ z.signedUnits ≤ hi := by
  have hge := h.ge_of_ge hlo hlower
  have hle := h.le_of_le hhi hupper
  exact ⟨isFinite_of_between hlo hhi hge hle, hge, hle⟩

/-- A result that is a number is not rounded. -/
theorem eq_of_isNumber {value : Int} (hvalue : IsNumber value) (ht : t = value * d) :
    z.isFinite = true ∧ z.signedUnits = value := by
  obtain ⟨hfinite, hge, hle⟩ := h.between hvalue hvalue ht.ge ht.le
  exact ⟨hfinite, Int.le_antisymm hle hge⟩

omit h in
/-- A finite number is rounded as in a list of magnitudes without an end. -/
theorem nearestOrdinal_eq_roundedPlace {n : Nat} (hlt : nearestOrdinal n d < infinityOrdinal) :
    nearestOrdinal n d = roundedPlace n d := by
  rw [nearestOrdinal_eq_min] at hlt ⊢
  omega

/-- **The error of rounding.** -/
theorem error (hz : z.isFinite = true) :
    2 ^ 53 * |z.signedUnits * d - t| ≤ |t| ∨ 2 * |z.signedUnits * d - t| ≤ d := by
  have hlt : (nearestKey t d).natAbs < infinityOrdinal := by
    rw [← h.key, natAbs_numericKey]
    exact of_decide_eq_true hz
  have herror := roundedPlace_error h.pos t.natAbs
  rw [signedUnits_eq, h.key]
  simp only [Int.abs_eq_natAbs]
  rcases Int.eq_nat_or_neg t with ⟨n, rfl | rfl⟩
  · rw [nearestKey_natCast h.pos, Int.natAbs_natCast] at hlt
    rw [nearestKey_natCast h.pos, unitsOfKey_natCast, nearestOrdinal_eq_roundedPlace hlt]
    simp only [Int.natAbs_natCast, Nat.cast_mul] at herror ⊢
    omega
  · rw [nearestKey_neg, nearestKey_natCast h.pos, Int.natAbs_neg, Int.natAbs_natCast] at hlt
    rw [nearestKey_neg, nearestKey_natCast h.pos, unitsOfKey_neg, unitsOfKey_natCast,
      nearestOrdinal_eq_roundedPlace hlt, Int.neg_mul]
    simp only [Int.natAbs_neg, Int.natAbs_natCast, Nat.cast_mul] at herror ⊢
    omega

end IsNearest

/-! ### Operations -/

section Operations

variable {x y : Binary64} (hx : x.isFinite = true) (hy : y.isFinite = true)
include hx hy

theorem isNearest_add : IsNearest (x + y) (x.signedUnits + y.signedUnits) 1 := by
  change IsNearest (add x y) _ _
  simp only [add, isNaN_eq_false hx, isNaN_eq_false hy, isInfinite_eq_false hx,
    isInfinite_eq_false hy, Bool.false_eq_true, if_false]
  generalize x.signedUnits + y.signedUnits = total
  split_ifs with hzero
  · rw [hzero]
    refine ⟨Nat.one_pos, rfl, ?_⟩
    cases x.negative && y.negative <;> rfl
  · apply IsNearest.of_ofUnits Nat.one_pos
    simp only [decide_eq_true_eq]
    split_ifs <;> omega

theorem isNearest_sub : IsNearest (x - y) (x.signedUnits - y.signedUnits) 1 := by
  have hsub : x - y = x + y.neg := by
    change sub x y = add x y.neg
    rw [sub, isNaN_eq_false hy]
    rfl
  rw [hsub, Int.sub_eq_add_neg, ← signedUnits_neg]
  exact isNearest_add hx hy

theorem isNearest_mul : IsNearest (x * y) (x.signedUnits * y.signedUnits) unitsPerOne := by
  have hmul : x * y = ofUnits (x.negative != y.negative) (x.units * y.units) unitsPerOne := by
    change mul x y = _
    simp only [mul, isNaN_eq_false hx, isNaN_eq_false hy, isInfinite_eq_false hx,
      isInfinite_eq_false hy, Bool.false_eq_true, if_false, Bool.or_self]
  rw [hmul, ← natAbs_signedUnits, ← natAbs_signedUnits, ← Int.natAbs_mul]
  apply IsNearest.of_ofUnits unitsPerOne_pos
  unfold signedUnits
  have hproduct := Int.mul_nonneg (Int.natCast_nonneg x.units) (Int.natCast_nonneg y.units)
  cases x.negative <;> cases y.negative <;> simp <;> omega

theorem isNearest_div (hpos : 0 < y.signedUnits) :
    IsNearest (x / y) (x.signedUnits * unitsPerOne) y.units := by
  have hunits : 0 < y.units := by
    rw [← natAbs_signedUnits]
    omega
  have hnegative : y.negative = false := by
    by_contra hnegative
    rw [signedUnits, if_pos (by simpa using hnegative)] at hpos
    omega
  have hzero : y.isZero = false := by
    rw [isZero, beq_eq_false_iff_ne]
    intro hzero
    rw [units, hzero] at hunits
    exact absurd hunits (by decide)
  have hdiv : x / y = ofUnits x.negative (x.units * unitsPerOne) y.units := by
    change div x y = _
    simp only [div, isNaN_eq_false hx, isNaN_eq_false hy, isInfinite_eq_false hx,
      isInfinite_eq_false hy, hzero, hnegative, Bool.false_eq_true, if_false, Bool.bne_false]
  have habs : (x.signedUnits * unitsPerOne).natAbs = x.units * unitsPerOne := by
    rw [Int.natAbs_mul, natAbs_signedUnits, Int.natAbs_natCast]
  rw [hdiv, ← habs]
  apply IsNearest.of_ofUnits hunits
  have hproduct := Int.mul_nonneg (Int.natCast_nonneg x.units) (Int.natCast_nonneg unitsPerOne)
  unfold signedUnits
  cases x.negative <;> simp only [Bool.false_eq_true, ↓reduceIte, Int.neg_mul] <;> omega

end Operations

/-! ### Values -/

/-- The value of a finite number. -/
def value (x : Binary64) : ℚ := x.signedUnits / unitsPerOne

/-- How far rounding moves a result, as a part of it. -/
def roundoff : ℚ := 1 / 2 ^ 53

/-- The least positive number. -/
def unit : ℚ := 1 / unitsPerOne

theorem unitsPerOne_cast_pos : (0 : ℚ) < unitsPerOne := Nat.cast_pos.2 unitsPerOne_pos

theorem value_le_iff {x y : Binary64} : x.value ≤ y.value ↔ x.signedUnits ≤ y.signedUnits := by
  rw [value, value, div_le_div_iff_of_pos_right unitsPerOne_cast_pos, Int.cast_le]

namespace IsNearest

variable {z : Binary64} {t : Int} {d : Nat} (h : IsNearest z t d) (hz : z.isFinite = true)
include h hz

theorem value_error :
    |z.value - t / (d * unitsPerOne)| ≤ roundoff * |(t : ℚ) / (d * unitsPerOne)| + unit / 2 := by
  have hone := unitsPerOne_cast_pos
  have hd : (0 : ℚ) < d := Nat.cast_pos.2 h.pos
  have hscale : (0 : ℚ) < d * unitsPerOne := mul_pos hd hone
  have hdiff : z.value - t / (d * unitsPerOne) = (z.signedUnits * d - t) / (d * unitsPerOne) := by
    rw [value]
    field_simp
  have hpart : 0 ≤ roundoff * |(t : ℚ) / (d * unitsPerOne)| := by
    unfold roundoff
    positivity
  have hhalf : 0 ≤ unit / 2 := by
    unfold unit
    positivity
  rw [hdiff, abs_div, abs_of_pos hscale]
  rcases h.error hz with herror | herror
  · have hcast : 2 ^ 53 * |(z.signedUnits * d - t : ℚ)| ≤ |(t : ℚ)| := by exact_mod_cast herror
    apply le_add_of_le_of_nonneg _ hhalf
    rw [abs_div, abs_of_pos hscale, roundoff, ← mul_div_assoc]
    apply div_le_div_of_nonneg_right _ hscale.le
    linarith
  · have hcast : 2 * |(z.signedUnits * d - t : ℚ)| ≤ d := by exact_mod_cast herror
    apply le_add_of_nonneg_of_le hpart
    rw [unit, div_le_iff₀ hscale]
    field_simp
    linarith

/-- A sum of numbers is a whole number of units, and is rounded only where it is great. -/
theorem value_error_of_whole (hd : d = 1) :
    |z.value - t / unitsPerOne| ≤ roundoff * |(t : ℚ) / unitsPerOne| := by
  subst hd
  have hone := unitsPerOne_cast_pos
  have hdiff : z.value - t / unitsPerOne = ((z.signedUnits - t : Int) : ℚ) / unitsPerOne := by
    rw [value, Int.cast_sub, sub_div]
  have herror : 2 ^ 53 * |z.signedUnits - t| ≤ |t| := by
    have herror := h.error hz
    simp only [Nat.cast_one, Int.mul_one, Int.abs_eq_natAbs] at herror ⊢
    omega
  have hcast : 2 ^ 53 * |((z.signedUnits - t : Int) : ℚ)| ≤ |(t : ℚ)| := by exact_mod_cast herror
  rw [hdiff, abs_div, abs_div, abs_of_pos hone, roundoff, ← mul_div_assoc]
  apply div_le_div_of_nonneg_right _ hone.le
  linarith

end IsNearest

end Throughput.Binary64
