/-
  Throughput/Proofs/Number/Rounding.lean
  ======================================
  **Rounding to the nearest number.**  Every place of the list of magnitudes is a
  binade with a significand in it (`exists_binade`), so from one place to the next
  the magnitude grows by a power of two.  A quotient between the two midpoints
  around a place is rounded to that place (`nearestOrdinal_eq_of_between`), and
  rounding keeps the order of quotients (`nearestOrdinal_mono`).  It moves a quotient by
  at most one part in `2^53` of it, or by at most half a unit (`roundedPlace_error`).
-/
import Mathlib.Algebra.Order.Ring.Nat
import Mathlib.Data.Nat.Log
import Mathlib.Order.Monotone.Basic
import Mathlib.Tactic.Linarith
import Mathlib.Tactic.Ring
import Throughput.Number.Binary64

namespace Throughput.Binary64

/-! ### Whole numbers nearest to a quotient -/

variable {n m d k : Nat}

/-- What rounding a quotient gives is at most half away from it, and an odd number
    less than half. -/
theorem roundHalfEven_bounds (hd : 0 < d) (n : Nat) :
    2 * (roundHalfEven n d * d) ≤ 2 * n + d ∧ 2 * n ≤ 2 * (roundHalfEven n d * d) + d ∧
      (roundHalfEven n d % 2 = 1 →
        2 * (roundHalfEven n d * d) < 2 * n + d ∧ 2 * n < 2 * (roundHalfEven n d * d) + d) := by
  have hdiv : n / d * d + n % d = n := Nat.div_add_mod' n d
  have hmod : n % d < d := Nat.mod_lt n hd
  simp only [roundHalfEven]
  generalize n / d = q at hdiv
  generalize n % d = r at hdiv hmod
  split_ifs with hbelow habove
  · omega
  · rw [Nat.add_mul, Nat.one_mul]
    omega
  · -- a tie: the even one of the two neighbours is taken
    rcases Nat.mod_two_eq_zero_or_one q with hq | hq
    · rw [hq, Nat.add_zero]
      omega
    · rw [hq, Nat.add_mul, Nat.one_mul]
      omega

/-- Of two quotients, whole numbers at most half away from them have the same order, if an
    odd one is less than half away. -/
theorem le_of_half_away {j : Nat} (hd : 0 < d) (h : n ≤ m) (hlower : 2 * (j * d) ≤ 2 * n + d)
    (hupper : 2 * m ≤ 2 * (k * d) + d) (hodd : j % 2 = 1 → 2 * (j * d) < 2 * n + d)
    (hodd' : k % 2 = 1 → 2 * m < 2 * (k * d) + d) : j ≤ k := by
  by_contra hlt
  -- both are half away from the same quotient then, so neither is odd
  have hstep : (k + 1) * d ≤ j * d := Nat.mul_le_mul_right d (by omega)
  rw [Nat.add_mul, Nat.one_mul] at hstep
  have hle : j ≤ k + 1 := by
    by_contra hfar
    have : (k + 2) * d ≤ j * d := Nat.mul_le_mul_right d (by omega)
    rw [Nat.add_mul] at this
    omega
  omega

/-- The whole number around which a quotient lies is the one it is rounded to. -/
theorem roundHalfEven_eq_of_between (hd : 0 < d) (hlower : 2 * (k * d) ≤ 2 * n + d)
    (hupper : 2 * n ≤ 2 * (k * d) + d)
    (hodd : k % 2 = 1 → 2 * (k * d) < 2 * n + d ∧ 2 * n < 2 * (k * d) + d) :
    roundHalfEven n d = k := by
  obtain ⟨hlower', hupper', hodd'⟩ := roundHalfEven_bounds hd n
  apply Nat.le_antisymm
  · exact le_of_half_away hd le_rfl hlower' hupper (fun h => (hodd' h).1) fun h => (hodd h).2
  · exact le_of_half_away hd le_rfl hlower hupper' (fun h => (hodd h).1) fun h => (hodd' h).2

theorem roundHalfEven_mul (hd : 0 < d) (k : Nat) : roundHalfEven (k * d) d = k :=
  roundHalfEven_eq_of_between hd (by omega) (by omega) (by omega)

theorem roundHalfEven_mono (hd : 0 < d) (h : n ≤ m) : roundHalfEven n d ≤ roundHalfEven m d := by
  obtain ⟨hlower, -, hodd⟩ := roundHalfEven_bounds hd n
  obtain ⟨-, hupper, hodd'⟩ := roundHalfEven_bounds hd m
  exact le_of_half_away hd h hlower hupper (fun h => (hodd h).1) fun h => (hodd' h).2

/-! ### Binades -/

/-- A place as a binade with a significand of 53 binary digits, the first of which is
    set in every binade but the lowest. -/
structure IsBinade (step significand : Nat) : Prop where
  significand_lt : significand < 2 ^ 53
  normal : step = 0 ∨ 2 ^ 52 ≤ significand

theorem unitsAt_eq {step significand : Nat} (hle : significand ≤ 2 ^ 53)
    (hnormal : step = 0 ∨ 2 ^ 52 ≤ significand) :
    unitsAt (step * 2 ^ 52 + significand) = significand * 2 ^ step := by
  have hpow : Nat.pow 2 52 = 4503599627370496 := rfl
  simp only [unitsAt, hpow]
  rcases Nat.lt_or_ge significand (2 ^ 53) with hlt | hge
  · have hstep : (step * 2 ^ 52 + significand) / 4503599627370496 - 1 = step := by omega
    rw [hstep, show step * 2 ^ 52 + significand - step * 4503599627370496 = significand by omega]
    rfl
  · -- the carry into the next binade
    obtain rfl : significand = 2 ^ 53 := Nat.le_antisymm hle hge
    have hstep : (step * 2 ^ 52 + 2 ^ 53) / 4503599627370496 - 1 = step + 1 := by omega
    rw [hstep,
      show step * 2 ^ 52 + 2 ^ 53 - (step + 1) * 4503599627370496 = 2 ^ 52 by omega]
    change 2 ^ 52 * 2 ^ (step + 1) = 2 ^ 53 * 2 ^ step
    ring

theorem exists_binade (ordinal : Nat) :
    ∃ step significand, IsBinade step significand ∧ ordinal = step * 2 ^ 52 + significand := by
  refine ⟨ordinal / 2 ^ 52 - 1, ordinal - (ordinal / 2 ^ 52 - 1) * 2 ^ 52, ⟨?_, ?_⟩, ?_⟩ <;> omega

namespace IsBinade

variable {step significand : Nat} (h : IsBinade step significand)
include h

theorem unitsAt_eq : unitsAt (step * 2 ^ 52 + significand) = significand * 2 ^ step :=
  Binary64.unitsAt_eq h.significand_lt.le h.normal

theorem unitsAt_succ :
    unitsAt (step * 2 ^ 52 + significand + 1) = (significand + 1) * 2 ^ step := by
  have hlt := h.significand_lt
  rw [Nat.add_assoc]
  refine Binary64.unitsAt_eq hlt (h.normal.imp id fun hle => ?_)
  omega

/-- A number between a magnitude and the next one tells the binade. -/
theorem log2_sub {q : Nat} (hlower : significand * 2 ^ step ≤ q)
    (hupper : q < (significand + 1) * 2 ^ step) : q.log2 - 52 = step := by
  have hlt := h.significand_lt
  have hq : q < 2 ^ (53 + step) := by
    rw [Nat.pow_add]
    exact Nat.lt_of_lt_of_le hupper (Nat.mul_le_mul_right _ hlt)
  rcases Nat.eq_zero_or_pos q with rfl | hpos
  · -- only the lowest binade holds the magnitude zero
    rcases h.normal with rfl | hnormal
    · rfl
    · have := Nat.mul_pos (Nat.lt_of_lt_of_le (by decide) hnormal) (Nat.two_pow_pos step)
      omega
  · have hlog := (Nat.log2_lt hpos.ne').2 hq
    rcases h.normal with rfl | hnormal
    · omega
    · have hle : 2 ^ (52 + step) ≤ q := by
        rw [Nat.pow_add]
        exact Nat.le_trans (Nat.mul_le_mul_right _ hnormal) hlower
      have := (Nat.le_log2 hpos.ne').2 hle
      omega

end IsBinade

theorem unitsAt_lt_succ (ordinal : Nat) : unitsAt ordinal < unitsAt (ordinal + 1) := by
  obtain ⟨step, significand, h, rfl⟩ := exists_binade ordinal
  rw [h.unitsAt_eq, h.unitsAt_succ]
  exact Nat.mul_lt_mul_of_pos_right (Nat.lt_succ_self _) (Nat.two_pow_pos step)

theorem unitsAt_strictMono : StrictMono unitsAt := strictMono_nat_of_lt_succ unitsAt_lt_succ

theorem unitsAt_mono {a b : Nat} (h : a ≤ b) : unitsAt a ≤ unitsAt b :=
  unitsAt_strictMono.monotone h

theorem unitsAt_pos {ordinal : Nat} (h : 0 < ordinal) : 0 < unitsAt ordinal :=
  unitsAt_strictMono h

theorem unitsAt_infinityOrdinal : unitsAt infinityOrdinal = 2 ^ (52 + 2046) := by
  rw [show infinityOrdinal = 2046 * 2 ^ 52 + 2 ^ 52 from rfl,
    unitsAt_eq (by decide) (.inr (Nat.le_refl _)), Nat.pow_add]

/-- A magnitude below the one that stands for infinity is that of a finite number. -/
theorem lt_infinityOrdinal {place : Nat} (h : unitsAt place < 2 ^ (52 + 2046)) :
    place < infinityOrdinal := by
  rw [← unitsAt_infinityOrdinal] at h
  exact unitsAt_strictMono.lt_iff_lt.1 h

/-! ### The nearest place -/

/-- The place of a quotient in a list of magnitudes without an end. -/
def roundedPlace (n d : Nat) : Nat :=
  ((n / d).log2 - 52) * 2 ^ 52 + roundHalfEven n (d * 2 ^ ((n / d).log2 - 52))

theorem nearestOrdinal_eq_min (n d : Nat) :
    nearestOrdinal n d = min infinityOrdinal (roundedPlace n d) := rfl

/-- Within a binade a quotient is rounded like a whole number. -/
theorem IsBinade.roundedPlace_eq {step significand : Nat} (h : IsBinade step significand)
    (hlower : significand * 2 ^ step ≤ n / d) (hupper : n / d < (significand + 1) * 2 ^ step) :
    roundedPlace n d = step * 2 ^ 52 + roundHalfEven n (d * 2 ^ step) := by
  rw [roundedPlace, h.log2_sub hlower hupper]

/-- A quotient between the midpoints around a place is rounded to the place; the
    midpoints belong to places that are even. -/
theorem roundedPlace_eq_of_between {ordinal : Nat} (hd : 0 < d)
    (hlower : (unitsAt (ordinal - 1) + unitsAt ordinal) * d ≤ 2 * n)
    (hupper : 2 * n ≤ (unitsAt ordinal + unitsAt (ordinal + 1)) * d)
    (hodd : ordinal % 2 = 1 → (unitsAt (ordinal - 1) + unitsAt ordinal) * d < 2 * n ∧
      2 * n < (unitsAt ordinal + unitsAt (ordinal + 1)) * d) :
    roundedPlace n d = ordinal := by
  rcases Nat.lt_or_ge n (unitsAt ordinal * d) with hbelow | habove
  · -- below the magnitude itself: the binade is that of the place before
    obtain ⟨before, rfl⟩ : ∃ before, ordinal = before + 1 := by
      refine Nat.exists_eq_add_one_of_ne_zero ?_
      rintro rfl
      simp [unitsAt] at hbelow
    obtain ⟨step, significand, h, rfl⟩ := exists_binade before
    simp only [Nat.add_sub_cancel, h.unitsAt_eq, h.unitsAt_succ] at hlower hodd hbelow
    have hscale : 0 < d * 2 ^ step := Nat.mul_pos hd (Nat.two_pow_pos step)
    have hdist : significand * 2 ^ step * d = significand * (d * 2 ^ step) := by ring
    have hdist' : (significand + 1) * 2 ^ step * d =
        significand * (d * 2 ^ step) + d * 2 ^ step := by ring
    simp only [Nat.add_mul (significand * 2 ^ step), hdist, hdist'] at hlower hodd hbelow
    rw [h.roundedPlace_eq ((Nat.le_div_iff_mul_le hd).2 (by omega))
      ((Nat.div_lt_iff_lt_mul hd).2 (by omega)), Nat.add_assoc]
    congr 1
    refine roundHalfEven_eq_of_between hscale ?_ ?_ fun hparity => ?_ <;>
      rw [Nat.add_mul, Nat.one_mul]
    · omega
    · omega
    · have := hodd (by omega)
      omega
  · obtain ⟨step, significand, h, rfl⟩ := exists_binade ordinal
    simp only [h.unitsAt_eq, h.unitsAt_succ] at hupper hodd habove
    have hscale : 0 < d * 2 ^ step := Nat.mul_pos hd (Nat.two_pow_pos step)
    have hdist : significand * 2 ^ step * d = significand * (d * 2 ^ step) := by ring
    have hdist' : (significand + 1) * 2 ^ step * d =
        significand * (d * 2 ^ step) + d * 2 ^ step := by ring
    simp only [Nat.add_mul (significand * 2 ^ step), hdist, hdist'] at hupper habove
    rw [h.roundedPlace_eq ((Nat.le_div_iff_mul_le hd).2 (by omega))
      ((Nat.div_lt_iff_lt_mul hd).2 (by omega))]
    congr 1
    refine roundHalfEven_eq_of_between hscale (by omega) (by omega) fun hparity => ?_
    have hstrict := (hodd (by omega)).2
    rw [Nat.add_mul (significand * 2 ^ step), hdist, hdist'] at hstrict
    omega

theorem nearestOrdinal_eq_of_between {ordinal : Nat} (hd : 0 < d) (hle : ordinal ≤ infinityOrdinal)
    (hlower : (unitsAt (ordinal - 1) + unitsAt ordinal) * d ≤ 2 * n)
    (hupper : 2 * n ≤ (unitsAt ordinal + unitsAt (ordinal + 1)) * d)
    (hodd : ordinal % 2 = 1 → (unitsAt (ordinal - 1) + unitsAt ordinal) * d < 2 * n ∧
      2 * n < (unitsAt ordinal + unitsAt (ordinal + 1)) * d) :
    nearestOrdinal n d = ordinal := by
  rw [nearestOrdinal_eq_min, roundedPlace_eq_of_between hd hlower hupper hodd, Nat.min_eq_right hle]

/-- A magnitude is rounded to its own place. -/
theorem nearestOrdinal_unitsAt {ordinal : Nat} (hd : 0 < d) (hle : ordinal ≤ infinityOrdinal) :
    nearestOrdinal (unitsAt ordinal * d) d = ordinal := by
  have hbelow := Nat.mul_le_mul_right d (unitsAt_mono (Nat.sub_le ordinal 1))
  have habove := Nat.mul_lt_mul_of_pos_right (unitsAt_lt_succ ordinal) hd
  refine nearestOrdinal_eq_of_between hd hle ?_ ?_ fun hodd => ?_ <;> rw [Nat.add_mul]
  · omega
  · omega
  · have hstrict : unitsAt (ordinal - 1) < unitsAt ordinal := unitsAt_strictMono (by omega)
    have hbelow' := Nat.mul_lt_mul_of_pos_right hstrict hd
    rw [Nat.add_mul]
    omega

/-! ### Order -/

/-- Rounding within a binade does not go past its end. -/
theorem roundHalfEven_le_of_log2 (hd : 0 < d) (n : Nat) :
    roundHalfEven n (d * 2 ^ ((n / d).log2 - 52)) ≤ 2 ^ 53 := by
  have hquotient : n / d < 2 ^ ((n / d).log2 + 1) := Nat.lt_log2_self
  generalize (n / d).log2 = log at hquotient ⊢
  have hscale : 0 < d * 2 ^ (log - 52) := Nat.mul_pos hd (Nat.two_pow_pos _)
  have hpow : 2 ^ (log + 1) ≤ 2 ^ 53 * 2 ^ (log - 52) := by
    rw [← Nat.pow_add]
    exact Nat.pow_le_pow_right (by decide) (by omega)
  have hle : n ≤ 2 ^ 53 * (d * 2 ^ (log - 52)) := by
    calc n ≤ 2 ^ (log + 1) * d := ((Nat.div_lt_iff_lt_mul hd).1 hquotient).le
      _ ≤ 2 ^ 53 * 2 ^ (log - 52) * d := Nat.mul_le_mul_right d hpow
      _ = 2 ^ 53 * (d * 2 ^ (log - 52)) := by ring
  have hrounded := roundHalfEven_mono hscale hle
  rwa [roundHalfEven_mul hscale] at hrounded

/-- Above the lowest binade it does not go below its beginning either. -/
theorem le_roundHalfEven_of_log2 (hd : 0 < d) (hlog : 52 < (n / d).log2) :
    2 ^ 52 ≤ roundHalfEven n (d * 2 ^ ((n / d).log2 - 52)) := by
  have hne : n / d ≠ 0 := by
    intro hzero
    rw [hzero] at hlog
    exact absurd hlog (by decide)
  have hquotient : 2 ^ (n / d).log2 ≤ n / d := Nat.log2_self_le hne
  generalize (n / d).log2 = log at hlog hquotient ⊢
  have hscale : 0 < d * 2 ^ (log - 52) := Nat.mul_pos hd (Nat.two_pow_pos _)
  have hpow : 2 ^ 52 * 2 ^ (log - 52) = 2 ^ log := by
    rw [← Nat.pow_add, Nat.add_sub_cancel' hlog.le]
  have hle : 2 ^ 52 * (d * 2 ^ (log - 52)) ≤ n := by
    calc 2 ^ 52 * (d * 2 ^ (log - 52)) = 2 ^ 52 * 2 ^ (log - 52) * d := by ring
      _ = 2 ^ log * d := by rw [hpow]
      _ ≤ n := (Nat.le_div_iff_mul_le hd).1 hquotient
  have hrounded := roundHalfEven_mono hscale hle
  rwa [roundHalfEven_mul hscale] at hrounded

theorem roundedPlace_mono (hd : 0 < d) (h : n ≤ m) : roundedPlace n d ≤ roundedPlace m d := by
  have hlog : (n / d).log2 ≤ (m / d).log2 := by
    rw [Nat.log2_eq_log_two, Nat.log2_eq_log_two]
    exact Nat.log_mono_right (Nat.div_le_div_right h)
  unfold roundedPlace
  rcases Nat.lt_or_ge ((n / d).log2 - 52) ((m / d).log2 - 52) with hlt | hge
  · -- in a higher binade every significand is past the greatest of the lower one
    have hlow := roundHalfEven_le_of_log2 hd n
    have hhigh := le_roundHalfEven_of_log2 hd (show 52 < (m / d).log2 by omega)
    omega
  · have heq : (n / d).log2 - 52 = (m / d).log2 - 52 := by omega
    rw [heq]
    exact Nat.add_le_add_left (roundHalfEven_mono (Nat.mul_pos hd (Nat.two_pow_pos _)) h) _

/-- **A greater quotient is not rounded to a lower place.** -/
theorem nearestOrdinal_mono (hd : 0 < d) (h : n ≤ m) : nearestOrdinal n d ≤ nearestOrdinal m d := by
  rw [nearestOrdinal_eq_min, nearestOrdinal_eq_min]
  exact min_le_min le_rfl (roundedPlace_mono hd h)

/-- What does not exceed the greatest number is rounded to a finite one. -/
theorem nearestOrdinal_lt (hd : 0 < d) (h : n ≤ unitsAt (infinityOrdinal - 1) * d) :
    nearestOrdinal n d < infinityOrdinal := by
  have hle := nearestOrdinal_mono hd h
  rw [nearestOrdinal_unitsAt hd (Nat.sub_le _ _)] at hle
  exact Nat.lt_of_le_of_lt hle (by decide)

/-- A quotient below the midpoint between two places is not rounded to the upper one. -/
theorem nearestOrdinal_le_of_lt_midpoint (hd : 0 < d) (hk : k ≤ infinityOrdinal)
    (h : 2 * n < (unitsAt k + unitsAt (k + 1)) * d) : nearestOrdinal n d ≤ k := by
  rcases Nat.lt_or_ge (unitsAt k * d) n with hlt | hle
  · have hbelow := Nat.mul_le_mul_right d (unitsAt_mono (Nat.sub_le k 1))
    have hmidpoint : (unitsAt (k - 1) + unitsAt k) * d < 2 * n := by
      rw [Nat.add_mul]
      omega
    exact (nearestOrdinal_eq_of_between hd hk hmidpoint.le h.le fun _ => ⟨hmidpoint, h⟩).le
  · have hrounded := nearestOrdinal_mono hd hle
    rwa [nearestOrdinal_unitsAt hd hk] at hrounded

theorem ordinal_ofNat_mono (h : n ≤ m) : (ofNat n).ordinal ≤ (ofNat m).ordinal :=
  nearestOrdinal_mono Nat.one_pos (Nat.mul_le_mul_right _ h)

/-! ### The error of rounding -/

/-- Rounding a quotient moves it by at most one part in `2^53` of it, or by at most half a
    unit. -/
theorem roundedPlace_error (hd : 0 < d) (n : Nat) :
    2 ^ 53 * ((unitsAt (roundedPlace n d) * d : Nat) - (n : Int)).natAbs ≤ n ∨
      2 * ((unitsAt (roundedPlace n d) * d : Nat) - (n : Int)).natAbs ≤ d := by
  have hgreatest := roundHalfEven_le_of_log2 hd n
  have hscale : 0 < d * 2 ^ ((n / d).log2 - 52) := Nat.mul_pos hd (Nat.two_pow_pos _)
  obtain ⟨hlower, hupper, -⟩ := roundHalfEven_bounds hscale n
  rcases Nat.lt_or_ge 52 (n / d).log2 with hlog | hlog
  · -- above the lowest binade the distance of neighbours is a small part of the quotient
    left
    have hne : n / d ≠ 0 := by
      intro hzero
      rw [hzero] at hlog
      exact absurd hlog (by decide)
    have hleast := le_roundHalfEven_of_log2 hd hlog
    have hpart : 2 ^ 52 * (d * 2 ^ ((n / d).log2 - 52)) ≤ n := by
      calc 2 ^ 52 * (d * 2 ^ ((n / d).log2 - 52)) = 2 ^ 52 * 2 ^ ((n / d).log2 - 52) * d := by ring
        _ = 2 ^ (n / d).log2 * d := by rw [← Nat.pow_add, Nat.add_sub_cancel' hlog.le]
        _ ≤ n := (Nat.le_div_iff_mul_le hd).1 (Nat.log2_self_le hne)
    rw [roundedPlace, unitsAt_eq hgreatest (.inr hleast), Nat.mul_assoc,
      Nat.mul_comm (2 ^ ((n / d).log2 - 52)) d]
    omega
  · -- in the lowest binade every whole number has its place
    right
    have hstep : (n / d).log2 - 52 = 0 := by omega
    rw [hstep, Nat.pow_zero, Nat.mul_one] at hlower hupper hgreatest
    rw [roundedPlace, hstep, Nat.pow_zero, Nat.mul_one, unitsAt_eq hgreatest (.inl rfl),
      Nat.pow_zero, Nat.mul_one]
    omega

/-- Rounding adds to a whole number at most one part in `2^53` of it. -/
theorem unitsAt_nearestOrdinal_le (n : Nat) :
    2 ^ 53 * unitsAt (nearestOrdinal n 1) ≤ (2 ^ 53 + 1) * n := by
  have hplace : unitsAt (nearestOrdinal n 1) ≤ unitsAt (roundedPlace n 1) :=
    unitsAt_mono (Nat.min_le_right _ _)
  have herror := roundedPlace_error Nat.one_pos n
  omega

theorem units_ofNat_le (n : Nat) :
    2 ^ 53 * (ofNat n).units ≤ (2 ^ 53 + 1) * (n * unitsPerOne) :=
  unitsAt_nearestOrdinal_le _

end Throughput.Binary64
