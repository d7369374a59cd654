/-
  Throughput/Proofs/Statistics/Sums.lean
  ======================================
  **Sums of rounded numbers.**  A sum stays within the multiples of its bounds, as far as
  these are numbers (`sum_between`), and so does the mean (`mean_between`).  Otherwise a
  sum is off by a part of the sum of the magnitudes that grows with the count
  (`sum_error`), and the mean by hardly more (`mean_error`).  The deviation is the root of
  a mean of squares, and so not negative (`isNonneg_deviation`).

  What may go wrong is that a sum is out of range; moderate samples are safe from that
  (`isFinite_sums`).
-/
import Mathlib.Algebra.Order.BigOperators.Group.Multiset
import Mathlib.Data.List.Induction
import Throughput.Proofs.Number.Nonneg
import Throughput.Proofs.Statistics.Exact

namespace Throughput.Samples

open Binary64 (IsNumber signedUnits_zero)

/-! ### Sums -/

theorem sum_append {α : Type} [Quantity α] (xs : List α) (x : α) :
    sum (xs ++ [x]) = sum xs + x := by
  simp [sum]

section Sums

variable {xs : List Binary64}

/-- **A sum stays within the multiples of its bounds,** as far as these are numbers. -/
theorem sum_between {lo hi : Int}
    (hbounds : ∀ x ∈ xs, x.isFinite = true ∧ lo ≤ x.signedUnits ∧ x.signedUnits ≤ hi)
    (hnumbers : ∀ k : Nat, k ≤ xs.length → IsNumber (k * lo) ∧ IsNumber (k * hi)) :
    (sum xs).isFinite = true ∧ xs.length * lo ≤ (sum xs).signedUnits ∧
      (sum xs).signedUnits ≤ xs.length * hi := by
  induction xs using List.reverseRecOn with
  | nil =>
    have hzero : (sum ([] : List Binary64)).signedUnits = 0 := signedUnits_zero true
    simp [hzero, show (sum ([] : List Binary64)).isFinite = true from rfl]
  | append_singleton xs x ih =>
    rw [List.length_append, List.length_singleton] at hnumbers ⊢
    obtain ⟨hfinite, hlower, hupper⟩ := ih (fun y hy => hbounds y (List.mem_append_left _ hy))
      fun k hk => hnumbers k (Nat.le_succ_of_le hk)
    obtain ⟨hx, hlo, hhi⟩ := hbounds x (List.mem_append_right _ List.mem_cons_self)
    obtain ⟨hnumLo, hnumHi⟩ := hnumbers (xs.length + 1) (Nat.le_refl _)
    rw [sum_append]
    apply (Binary64.isNearest_add hfinite hx).between hnumLo hnumHi
    · push_cast
      linarith
    · push_cast
      linarith

theorem isFinite_sum_of_append {x : Binary64} (hx : x.isFinite = true)
    (h : (sum (xs ++ [x])).isFinite = true) : (sum xs).isFinite = true := by
  rw [sum_append] at h
  exact Binary64.isFinite_of_isFinite_add hx h

/-- A sum of finite numbers may be infinite, but is a number. -/
theorem isNaN_sum (hfinite : ∀ x ∈ xs, x.isFinite = true) : (sum xs).isNaN = false := by
  induction xs using List.reverseRecOn with
  | nil => rfl
  | append_singleton xs x ih =>
    rw [sum_append]
    apply Binary64.isNaN_add
    · apply ih
      intro y hy
      exact hfinite y (List.mem_append_left _ hy)
    · exact hfinite x (List.mem_append_right _ List.mem_cons_self)

theorem isNonneg_sum (hnonneg : ∀ x ∈ xs, x.IsNonneg) : (sum xs).IsNonneg := by
  induction xs using List.reverseRecOn with
  | nil => exact ⟨rfl, le_rfl⟩
  | append_singleton xs x ih =>
    rw [sum_append]
    apply Binary64.isNonneg_add
    · apply ih
      intro y hy
      exact hnonneg y (List.mem_append_left _ hy)
    · exact hnonneg x (List.mem_append_right _ List.mem_cons_self)

/-- The greatest part of the sum of magnitudes by which a sum of so many numbers is off. -/
def lossOf (count : Nat) : ℚ := (1 + Binary64.roundoff) ^ count - 1

theorem roundoff_nonneg : 0 ≤ Binary64.roundoff := by
  unfold Binary64.roundoff
  positivity

theorem lossOf_nonneg (count : Nat) : 0 ≤ lossOf count := by
  rw [lossOf, sub_nonneg]
  apply one_le_pow₀
  linarith [roundoff_nonneg]

theorem lossOf_succ (count : Nat) :
    lossOf (count + 1) = Binary64.roundoff + (1 + Binary64.roundoff) * lossOf count := by
  unfold lossOf
  ring

/-- What one more rounding adds to an error. -/
theorem error_step {part loss slack exact computed next v magnitude : ℚ} (hpart : 0 ≤ part)
    (hloss : 0 ≤ loss) (hexact : |exact| ≤ magnitude)
    (hbefore : |computed - exact| ≤ loss * magnitude)
    (hrounded : |next - (computed + v)| ≤ part * |computed + v| + slack) :
    |next - (exact + v)| ≤ (part + (1 + part) * loss) * (magnitude + |v|) + slack := by
  have hcomputed : |computed + v| ≤ magnitude + |v| + loss * magnitude := by
    calc |computed + v| = |(exact + v) + (computed - exact)| := by ring_nf
      _ ≤ |exact + v| + |computed - exact| := abs_add_le _ _
      _ ≤ |exact| + |v| + |computed - exact| := by gcongr; exact abs_add_le _ _
      _ ≤ magnitude + |v| + loss * magnitude := by gcongr
  have hv : 0 ≤ (1 + part) * loss * |v| := by positivity
  calc |next - (exact + v)| = |(next - (computed + v)) + (computed - exact)| := by ring_nf
    _ ≤ |next - (computed + v)| + |computed - exact| := abs_add_le _ _
    _ ≤ part * |computed + v| + slack + loss * magnitude := add_le_add hrounded hbefore
    _ ≤ part * (magnitude + |v| + loss * magnitude) + slack + loss * magnitude := by gcongr
    _ ≤ (part + (1 + part) * loss) * (magnitude + |v|) + slack := by linarith

theorem abs_sum_value_le (xs : List Binary64) :
    |(xs.map Binary64.value).sum| ≤ (xs.map fun x => |x.value|).sum := by
  simpa [Function.comp_def] using
    Multiset.abs_sum_le_sum_abs (s := (xs.map Binary64.value : Multiset ℚ))

/-- **The error of a sum.** -/
theorem sum_error (hfinite : ∀ x ∈ xs, x.isFinite = true) (hsum : (sum xs).isFinite = true) :
    |(sum xs).value - (xs.map Binary64.value).sum| ≤
      lossOf xs.length * (xs.map fun x => |x.value|).sum := by
  induction xs using List.reverseRecOn with
  | nil =>
    have hzero : (sum ([] : List Binary64)).value = 0 := by
      rw [Binary64.value, show sum ([] : List Binary64) = .zero true from rfl, signedUnits_zero,
        Int.cast_zero, zero_div]
    simp [hzero]
  | append_singleton xs x ih =>
    have hx := hfinite x (List.mem_append_right _ List.mem_cons_self)
    have hbefore := isFinite_sum_of_append hx hsum
    have herror := ih (fun y hy => hfinite y (List.mem_append_left _ hy)) hbefore
    rw [sum_append] at hsum ⊢
    have hrounded := (Binary64.isNearest_add hbefore hx).value_error_of_whole hsum rfl
    rw [Int.cast_add, add_div, ← add_zero (Binary64.roundoff * _)] at hrounded
    rw [List.length_append, List.length_singleton, lossOf_succ, List.map_append, List.sum_append,
      List.map_append, List.sum_append, List.map_singleton, List.map_singleton, List.sum_singleton,
      List.sum_singleton, ← add_zero (_ * _)]
    exact error_step roundoff_nonneg (lossOf_nonneg _) (abs_sum_value_le xs) herror hrounded

end Sums

/-! ### Means -/

section Means

variable {xs : List Binary64} (hne : xs ≠ []) (hlength : xs.length < 2 ^ 53)
include hne hlength

theorem signedUnits_count_pos : 0 < (Binary64.ofNat xs.length).signedUnits := by
  rw [Binary64.signedUnits_ofNat hlength, Int.natCast_pos]
  exact Nat.mul_pos (List.length_pos_iff.2 hne) Binary64.unitsPerOne_pos

/-- The mean is the sum divided by the count, and rounded. -/
theorem isNearest_mean (hsum : (sum xs).isFinite = true) :
    (mean xs).IsNearest ((sum xs).signedUnits * Binary64.unitsPerOne)
      (xs.length * Binary64.unitsPerOne) := by
  have hcount := Binary64.ofNat_exact hlength
  rw [← hcount.2]
  exact Binary64.isNearest_div hsum hcount.1 (signedUnits_count_pos hne hlength)

/-- The mean is a number wherever the sum is between multiples of numbers. -/
theorem mean_between {lo hi : Int} (hlo : IsNumber lo) (hhi : IsNumber hi)
    (hsum : (sum xs).isFinite = true) (hlower : xs.length * lo ≤ (sum xs).signedUnits)
    (hupper : (sum xs).signedUnits ≤ xs.length * hi) :
    (mean xs).isFinite = true ∧ lo ≤ (mean xs).signedUnits ∧ (mean xs).signedUnits ≤ hi := by
  have hone : (0 : Int) ≤ Binary64.unitsPerOne := Int.natCast_nonneg _
  apply (isNearest_mean hne hlength hsum).between hlo hhi
  · have hscaled := Int.mul_le_mul_of_nonneg_right hlower hone
    push_cast
    linarith
  · have hscaled := Int.mul_le_mul_of_nonneg_right hupper hone
    push_cast
    linarith

/-- Dividing a finite number by a count leads to no infinity. -/
theorem isFinite_mean (hsum : (sum xs).isFinite = true) : (mean xs).isFinite = true := by
  have hcount : (1 : Int) ≤ xs.length := by
    exact_mod_cast List.length_pos_iff.2 hne
  rcases Int.le_total 0 (sum xs).signedUnits with hnonneg | hnonpos
  · apply (mean_between hne hlength Binary64.isNumber_zero
      (Binary64.isNumber_signedUnits hsum) hsum _ _).1
    · simpa using hnonneg
    · exact le_mul_of_one_le_left hnonneg hcount
  · apply (mean_between hne hlength (Binary64.isNumber_signedUnits hsum)
      Binary64.isNumber_zero hsum _ _).1
    · nlinarith
    · simpa using hnonpos

/-- **The error of a mean.** -/
theorem mean_error (hfinite : ∀ x ∈ xs, x.isFinite = true) (hsum : (sum xs).isFinite = true) :
    |(mean xs).value - exactMean (xs.map Binary64.value)| ≤
      lossOf (xs.length + 1) * exactMean (xs.map fun x => |x.value|) + Binary64.unit / 2 := by
  have hcount : (0 : ℚ) < xs.length := by
    exact_mod_cast List.length_pos_iff.2 hne
  have hone := Binary64.unitsPerOne_cast_pos
  have hrounded := (isNearest_mean hne hlength hsum).value_error (isFinite_mean hne hlength hsum)
  have hquotient : (((sum xs).signedUnits * Binary64.unitsPerOne : Int) : ℚ) /
      ((xs.length * Binary64.unitsPerOne : Nat) * Binary64.unitsPerOne) =
        (sum xs).value / xs.length := by
    rw [Binary64.value]
    push_cast
    field_simp
  rw [hquotient, ← add_zero ((sum xs).value / xs.length)] at hrounded
  have hbefore := sum_error hfinite hsum
  have hmagnitude := abs_sum_value_le xs
  unfold exactMean
  simp only [List.length_map]
  generalize (xs.map Binary64.value).sum = exact at hbefore hmagnitude ⊢
  generalize (xs.map fun x => |x.value|).sum = magnitude at hbefore hmagnitude ⊢
  have hexact : |exact / xs.length| ≤ magnitude / xs.length := by
    rw [abs_div, abs_of_pos hcount]
    exact div_le_div_of_nonneg_right hmagnitude hcount.le
  have hsumError : |(sum xs).value / xs.length - exact / xs.length| ≤
      lossOf xs.length * (magnitude / xs.length) := by
    rw [← sub_div, abs_div, abs_of_pos hcount, ← mul_div_assoc]
    exact div_le_div_of_nonneg_right hbefore hcount.le
  have hstep := error_step roundoff_nonneg (lossOf_nonneg _) hexact hsumError hrounded
  rwa [add_zero, abs_zero, add_zero, ← lossOf_succ] at hstep

end Means

/-! ### Deviations -/

section Deviations

/-- The squared distances of the samples from their mean. -/
def squares (xs : List Binary64) : List Binary64 :=
  xs.map fun x => (x - mean xs) * (x - mean xs)

theorem variance_eq_mean_squares (xs : List Binary64) : variance xs = mean (squares xs) := by
  simp [variance, mean, squares]

variable {xs : List Binary64} (hne : xs ≠ []) (hlength : xs.length < 2 ^ 53)
  (hfinite : ∀ x ∈ xs, x.isFinite = true)
include hne hlength hfinite

theorem isNaN_mean : (mean xs).isNaN = false :=
  Binary64.isNaN_div (isNaN_sum hfinite) (Binary64.ofNat_exact hlength).1
    (signedUnits_count_pos hne hlength)

theorem isNonneg_variance : (variance xs).IsNonneg := by
  have hsum : (sum (squares xs)).IsNonneg := by
    apply isNonneg_sum
    intro square hsquare
    obtain ⟨x, hx, rfl⟩ := List.mem_map.1 hsquare
    apply Binary64.isNonneg_mul_self
    exact Binary64.isNaN_sub (hfinite x hx) (isNaN_mean hne hlength hfinite)
  exact Binary64.isNonneg_div hsum (Binary64.ofNat_exact hlength).1
    (signedUnits_count_pos hne hlength)

/-- **A deviation is not negative,** be it finite or not. -/
theorem isNonneg_deviation : (deviation xs).IsNonneg :=
  Binary64.isNonneg_sqrt (isNonneg_variance hne hlength hfinite)

theorem isFinite_deviation (h : (sum (squares xs)).isFinite = true) :
    (deviation xs).isFinite = true := by
  apply Binary64.isFinite_sqrt (isNonneg_variance hne hlength hfinite)
  rw [variance_eq_mean_squares]
  apply isFinite_mean _ _ h
  · simpa [squares] using hne
  · simpa [squares] using hlength

end Deviations

/-! ### Moderate samples -/

/-- So far from the ends of the range that no statistics lead there. -/
def IsModerate (x : Binary64) : Prop := |x.value| ≤ 2 ^ 484

section Moderate

/-- Within a power of two of zero, in units. -/
structure IsWithin (digits : Nat) (x : Binary64) : Prop where
  finite : x.isFinite = true
  lower : -((2 ^ digits : Nat) : Int) ≤ x.signedUnits
  upper : x.signedUnits ≤ (2 ^ digits : Nat)

theorem isWithin_of_isModerate {x : Binary64} (hfinite : x.isFinite = true) (h : IsModerate x)
    {digits : Nat} (hd : digits = 1558) : IsWithin digits x := by
  obtain ⟨places, hplaces⟩ : ∃ places, places = 1074 := ⟨1074, rfl⟩
  obtain ⟨log, hlog⟩ : ∃ log, log = 484 := ⟨484, rfl⟩
  have hdigits : digits = log + places := by omega
  have hpow : 2 ^ digits = 2 ^ log * Binary64.unitsPerOne := by
    rw [Binary64.unitsPerOne_eq_pow hplaces, ← Nat.pow_add, hdigits]
  rw [IsModerate, Binary64.value, abs_div, abs_of_pos Binary64.unitsPerOne_cast_pos,
    div_le_iff₀ Binary64.unitsPerOne_cast_pos, ← hlog] at h
  have habs : |x.signedUnits| ≤ (2 ^ log * Binary64.unitsPerOne : Nat) := by exact_mod_cast h
  rw [← hpow] at habs
  obtain ⟨hlower, hupper⟩ := abs_le.1 habs
  exact ⟨hfinite, hlower, hupper⟩

theorem isNumber_multiple {k digits : Nat} (hk : k < 2 ^ 53) (hd : digits ≤ 2045) :
    IsNumber (k * (2 ^ digits : Nat)) ∧ IsNumber (k * -((2 ^ digits : Nat) : Int)) := by
  have hnumber := Binary64.isNumber_mul_pow hk hd
  rw [Nat.cast_mul] at hnumber
  exact ⟨hnumber, by simpa using hnumber.neg⟩

theorem isNumber_pow {digits : Nat} (hd : digits ≤ 2045) :
    IsNumber (2 ^ digits : Nat) ∧ IsNumber (-((2 ^ digits : Nat) : Int)) := by
  simpa using isNumber_multiple (k := 1) (by decide) hd

theorem isModerate_ofNat {n : Nat} (hn : n < 2 ^ 53) : IsModerate (Binary64.ofNat n) := by
  have hvalue : (Binary64.ofNat n).value = n := by
    rw [Binary64.value, Binary64.signedUnits_ofNat hn]
    push_cast
    exact mul_div_cancel_right₀ _ Binary64.unitsPerOne_cast_pos.ne'
  rw [IsModerate, hvalue, Nat.abs_cast]
  calc (n : ℚ) ≤ 2 ^ 53 := by exact_mod_cast hn.le
    _ ≤ 2 ^ 484 := by
      apply pow_le_pow_right₀ one_le_two
      decide

variable {x y : Binary64} {xs : List Binary64} {digits : Nat}

theorem IsWithin.sub (hx : IsWithin digits x) (hy : IsWithin digits y) (hd : digits < 2045) :
    IsWithin (digits + 1) (x - y) := by
  have hxl := hx.lower
  have hxu := hx.upper
  have hyl := hy.lower
  have hyu := hy.upper
  obtain ⟨hnumber, hnumber'⟩ := isNumber_pow (Nat.succ_le_of_lt hd)
  obtain ⟨hfinite, hlower, hupper⟩ := (Binary64.isNearest_sub hx.finite hy.finite).between
    hnumber' hnumber (by rw [Nat.pow_succ]; omega) (by rw [Nat.pow_succ]; omega)
  exact ⟨hfinite, hlower, hupper⟩

theorem IsWithin.mean (hne : xs ≠ []) (hlength : xs.length < 2 ^ 53) (hd : digits ≤ 2045)
    (h : ∀ x ∈ xs, IsWithin digits x) : (sum xs).isFinite = true ∧ IsWithin digits (mean xs) := by
  obtain ⟨hnumber, hnumber'⟩ := isNumber_pow hd
  obtain ⟨hsum, hlower, hupper⟩ := sum_between
    (fun x hx => ⟨(h x hx).finite, (h x hx).lower, (h x hx).upper⟩)
    fun k hk => (isNumber_multiple (hk.trans_lt hlength) hd).symm
  obtain ⟨hmean, hlower', hupper'⟩ := mean_between hne hlength hnumber' hnumber hsum hlower hupper
  exact ⟨hsum, hmean, hlower', hupper'⟩

/-- The square of a number within half the digits. -/
theorem IsWithin.mul_self (hx : IsWithin digits x) {digits' : Nat} (hd : digits' ≤ 2045)
    (hdouble : digits + digits = digits' + 1074) : IsWithin digits' (x * x) := by
  obtain ⟨places, hplaces⟩ : ∃ places, places = 1074 := ⟨1074, rfl⟩
  obtain ⟨hnumber, hnumber'⟩ := isNumber_pow hd
  have hpow : ((2 ^ digits : Nat) : Int) * (2 ^ digits : Nat) =
      (2 ^ digits' : Nat) * Binary64.unitsPerOne := by
    rw [← hplaces] at hdouble
    rw [Binary64.unitsPerOne_eq_pow hplaces, ← Nat.cast_mul, ← Nat.cast_mul, ← Nat.pow_add,
      ← Nat.pow_add, hdouble]
  have hsquare : x.signedUnits * x.signedUnits ≤ (2 ^ digits : Nat) * (2 ^ digits : Nat) := by
    have hxl := hx.lower
    have hxu := hx.upper
    nlinarith
  have hnonneg : 0 ≤ x.signedUnits * x.signedUnits := mul_self_nonneg _
  rw [hpow] at hsquare
  obtain ⟨hfinite, hlower, hupper⟩ := (Binary64.isNearest_mul hx.finite hx.finite).between
    hnumber' hnumber (by nlinarith) hsquare
  exact ⟨hfinite, hlower, hupper⟩

/-- **No sum of moderate samples is out of range,** nor is one of their squares. -/
theorem isFinite_sums (hne : xs ≠ []) (hlength : xs.length < 2 ^ 53)
    (hfinite : ∀ x ∈ xs, x.isFinite = true) (hmoderate : ∀ x ∈ xs, IsModerate x) :
    (sum xs).isFinite = true ∧ (sum (squares xs)).isFinite = true := by
  obtain ⟨digits, hdigits⟩ : ∃ digits, digits = 1558 := ⟨1558, rfl⟩
  have hwithin : ∀ x ∈ xs, IsWithin digits x := fun x hx =>
    isWithin_of_isModerate (hfinite x hx) (hmoderate x hx) hdigits
  obtain ⟨hsum, hmean⟩ := IsWithin.mean hne hlength (by omega) hwithin
  obtain ⟨digits', hdigits'⟩ : ∃ digits', digits + 1 + (digits + 1) = digits' + 1074 :=
    ⟨2044, by omega⟩
  have hsquares : ∀ square ∈ squares xs, IsWithin digits' square := by
    intro square hsquare
    obtain ⟨x, hx, rfl⟩ := List.mem_map.1 hsquare
    exact ((hwithin x hx).sub hmean (by omega)).mul_self (by omega) hdigits'
  refine ⟨hsum, (IsWithin.mean ?_ ?_ (by omega) hsquares).1⟩
  · simpa [squares] using hne
  · simpa [squares] using hlength

end Moderate

end Throughput.Samples
