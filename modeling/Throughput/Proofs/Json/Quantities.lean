/-
  Throughput/Proofs/Json/Quantities.lean
  ======================================
  **Finite quantities can be read.**  Reading takes as many digits of a number as fit
  a word, rounds them and the power of ten each for itself, and refuses a product that
  is not finite.  What is written for a finite number is never refused
  (`isSome_binary64?_ofBinary64`).  Its digits do not exceed the next number, and
  below the last binade that leaves room for the rounding of both factors
  (`productOrdinal_lt_of_lastBinade`).  In the last binade the digits end no later
  than at `10 ^ 291` (`le_exponent_shortest`), so there are few powers of ten left to
  go through (`productOrdinal_greatest`).
-/
import Throughput.Proofs.Json.Records
import Throughput.Proofs.Number.Arithmetic

namespace Throughput

namespace Binary64

/-! ### The range of numbers -/

/-- The place of the first number of the last binade, `2 ^ 1023`. -/
def lastBinade : Nat := 2046 * 2 ^ 52

theorem unitsAt_lastBinade : unitsAt lastBinade = 2 ^ 52 * 2 ^ 2045 := by
  rw [show lastBinade = 2045 * 2 ^ 52 + 2 ^ 52 from rfl,
    unitsAt_eq (by decide) (.inr (Nat.le_refl _))]

theorem unitsAt_greatest : unitsAt (infinityOrdinal - 1) = (2 ^ 53 - 1) * 2 ^ 2045 := by
  rw [show infinityOrdinal - 1 = 2045 * 2 ^ 52 + (2 ^ 53 - 1) from rfl,
    unitsAt_eq (by decide) (.inr (by decide))]

/-- How words and powers of ten lie among the numbers. -/
structure RangeBounds : Prop where
  word : Word.count 64 * unitsPerOne ≤ unitsAt lastBinade
  grid : (Digits.gridStep 291).1 ≤ 2 ^ (52 + 2045 - 53) * (Digits.gridStep 291).2
  power : 10 ^ 308 * unitsPerOne ≤ unitsAt (infinityOrdinal - 1)
  beyond : unitsAt (infinityOrdinal - 1) < 10 ^ 309 * unitsPerOne

/-- Words lie below the last binade, in which numbers are farther apart than `10 ^ 291`;
    powers of ten are in range up to `10 ^ 308` and no further. -/
theorem range_bounds : RangeBounds := by constructor <;> decide +kernel

end Binary64

open Binary64

/-! ### Digits that are no greater than a number -/

namespace Digits

variable {n m place ordinal : Nat} {e least : Int}

/-- `n * 10 ^ e` is no greater than the magnitude at a place. -/
def NotAbove (n : Nat) (e : Int) (place : Nat) : Prop :=
  n * (gridStep e).1 ≤ 2 * unitsAt place * (gridStep e).2

theorem notAbove_of_nonneg (h : NotAbove n e place) (he : 0 ≤ e) :
    n * 10 ^ e.toNat * unitsPerOne ≤ unitsAt place := by
  rw [NotAbove, gridStep_of_nonneg he, Nat.mul_one] at h
  dsimp only at h
  have hdouble : n * (10 ^ e.toNat * (2 * unitsPerOne)) =
      2 * (n * 10 ^ e.toNat * unitsPerOne) := by ring
  omega

/-- Leaving out digits makes nothing greater. -/
theorem NotAbove.of_leading (h : NotAbove m least place) (he : least ≤ e)
    (hleading : n * 10 ^ (e - least).toNat ≤ m) : NotAbove n e place := by
  have hscale := (gridStep_pos least).2
  have hgrid := gridStep_of_le he
  unfold NotAbove at h ⊢
  refine Nat.le_of_mul_le_mul_right ?_ hscale
  calc n * (gridStep e).1 * (gridStep least).2
      = n * ((gridStep e).1 * (gridStep least).2) := Nat.mul_assoc _ _ _
    _ = n * 10 ^ (e - least).toNat * (gridStep least).1 * (gridStep e).2 := by rw [hgrid]; ring
    _ ≤ m * (gridStep least).1 * (gridStep e).2 :=
        Nat.mul_le_mul_right _ (Nat.mul_le_mul_right _ hleading)
    _ ≤ 2 * unitsAt place * (gridStep least).2 * (gridStep e).2 := Nat.mul_le_mul_right _ h
    _ = 2 * unitsAt place * (gridStep e).2 * (gridStep least).2 := by ring

/-- The digits of a number do not exceed the place above it. -/
theorem notAbove_shortest (hpos : 0 < ordinal) (hlt : ordinal < place)
    (hplace : place ≤ infinityOrdinal) :
    NotAbove (shortest .even ordinal).significand (shortest .even ordinal).exponent place := by
  have hholds := shortest_holds .even hpos (Nat.lt_of_lt_of_le hlt hplace)
  generalize shortest .even ordinal = d at hholds
  obtain ⟨-, hupper, -⟩ := (holds_around _ _).1 hholds
  have hunits := unitsAt_mono hlt.le
  have hunits' : unitsAt (ordinal + 1) ≤ unitsAt place := unitsAt_mono hlt
  refine Nat.le_trans hupper (Nat.mul_le_mul_right _ ?_)
  omega

/-! ### Digits of the last binade -/

theorem log2_unitsAt_of_lastBinade (hle : lastBinade ≤ ordinal) (hlt : ordinal < infinityOrdinal) :
    (unitsAt ordinal).log2 = 52 + 2045 := by
  have hlower := unitsAt_mono hle
  have hupper := unitsAt_strictMono hlt
  rw [unitsAt_lastBinade, ← pow_add] at hlower
  rw [unitsAt_infinityOrdinal, show 52 + 2046 = 52 + 2045 + 1 from rfl] at hupper
  have hpos : 0 < ordinal := Nat.lt_of_lt_of_le (by decide) hle
  have hlog : ∀ k, 2 ^ k ≤ unitsAt ordinal → unitsAt ordinal < 2 ^ (k + 1) →
      (unitsAt ordinal).log2 = k := fun _ hle hlt =>
    (Nat.log2_eq_iff (unitsAt_pos hpos).ne').2 ⟨hle, hlt⟩
  exact hlog _ hlower hupper

/-- In the last binade numbers are so far apart that a grid of `10 ^ 291` is fine
    enough. -/
theorem le_exponent_shortest (hle : lastBinade ≤ ordinal) (hlt : ordinal < infinityOrdinal) :
    291 ≤ (shortest .even ordinal).exponent := by
  have hpos : 0 < ordinal := Nat.lt_of_lt_of_le (by decide) hle
  have hlog := log2_unitsAt_of_lastBinade hle hlt
  have habove : exponentAbove ordinal = 309 := by
    rw [exponentAbove, hlog]
    decide
  have hgap := pow_log2_le_gap hpos
  rw [hlog] at hgap
  have hfine := Nat.le_trans range_bounds.grid (Nat.mul_le_mul_right _ hgap)
  have hsome := isSome_candidate? hfine .even
  have hreached : exponentAbove ordinal - (21 : Nat) < 291 := by omega
  have hstart : 291 ≤ exponentAbove ordinal := by omega
  obtain ⟨n, found, hfound, -, hge⟩ := exists_searchFrom hreached hstart hsome
  rw [shortest, hfound]
  exact hge

/-- What reading a decimal relies on: it is below the last binade, or it lies in it on
    a coarse grid. -/
def InRange (n : Nat) (e : Int) : Prop :=
  NotAbove n e lastBinade ∨ 291 ≤ e ∧ NotAbove n e (infinityOrdinal - 1)

theorem InRange.of_leading (h : InRange m least) (he : least ≤ e)
    (hleading : n * 10 ^ (e - least).toNat ≤ m) : InRange n e := by
  rcases h with h | ⟨hgrid, h⟩
  · exact .inl (h.of_leading he hleading)
  · exact .inr ⟨Int.le_trans hgrid he, h.of_leading he hleading⟩

theorem inRange_zero (e : Int) : InRange 0 e := by
  left
  rw [NotAbove, Nat.zero_mul]
  exact Nat.zero_le _

theorem inRange_shortest (hlt : ordinal < infinityOrdinal) :
    InRange (shortest .even ordinal).significand (shortest .even ordinal).exponent := by
  rcases Nat.eq_zero_or_pos ordinal with rfl | hpos
  · have hzero : (shortest .even 0).significand = 0 := by decide +kernel
    rw [hzero]
    exact inRange_zero _
  rcases Nat.lt_or_ge ordinal lastBinade with hbelow | habove
  · exact .inl (notAbove_shortest hpos hbelow (by decide))
  refine .inr ⟨le_exponent_shortest habove hlt, ?_⟩
  rcases Nat.lt_or_ge ordinal (infinityOrdinal - 1) with hless | hge
  · exact notAbove_shortest hpos hless (by decide)
  · -- the greatest number has no neighbour below infinity
    obtain rfl : ordinal = infinityOrdinal - 1 := by omega
    have hgreatest : shortest .even (infinityOrdinal - 1) = ⟨17976931348623157, 292⟩ := by
      decide +kernel
    rw [hgreatest]
    unfold NotAbove
    decide +kernel

end Digits

namespace Json

open Digits

/-! ### Scaling by a power of ten -/

variable {n e : Nat}

theorem isFinite_ofNat_of_le (h : n * unitsPerOne ≤ unitsAt (infinityOrdinal - 1)) :
    (Binary64.ofNat n).isFinite = true :=
  decide_eq_true (nearestOrdinal_lt Nat.one_pos (by rwa [Nat.mul_one]))

theorem isFinite_ofNat (h : Word.fits 64 n = true) : (Binary64.ofNat n).isFinite = true := by
  have hle : n ≤ Word.count 64 := (of_decide_eq_true h : n < Word.count 64).le
  have hlast : unitsAt lastBinade ≤ unitsAt (infinityOrdinal - 1) := unitsAt_mono (by decide)
  exact isFinite_ofNat_of_le
    ((Nat.mul_le_mul_right _ hle).trans (range_bounds.word.trans hlast))

theorem powerOfTen_eq (e : Nat) : powerOfTen e = Binary64.ofNat (10 ^ e) := rfl

theorem isFinite_powerOfTen (h : e ≤ 308) : (powerOfTen e).isFinite = true := by
  -- said of any exponent, so that no power is computed
  have hpow : ∀ k bound : Nat, e ≤ k → 10 ^ k * unitsPerOne ≤ bound →
      10 ^ e * unitsPerOne ≤ bound := fun k bound hle hbound =>
    (Nat.mul_le_mul_right _ (Nat.pow_le_pow_right (by decide) hle)).trans hbound
  exact isFinite_ofNat_of_le (hpow _ _ h range_bounds.power)

/-- Below the last binade there is room for the rounding of both factors. -/
theorem productOrdinal_lt_of_lastBinade (h : n * 10 ^ e * unitsPerOne ≤ unitsAt lastBinade) :
    productOrdinal (.ofNat n) (powerOfTen e) < infinityOrdinal := by
  have hn := units_ofNat_le n
  have hpower := units_ofNat_le (10 ^ e)
  rw [← powerOfTen_eq] at hpower
  have hroom : (2 ^ 53 + 1) * (2 ^ 53 + 1) * unitsAt lastBinade ≤
      2 ^ 53 * 2 ^ 53 * unitsAt (infinityOrdinal - 1) := by
    rw [unitsAt_lastBinade, unitsAt_greatest, ← Nat.mul_assoc, ← Nat.mul_assoc]
    exact Nat.mul_le_mul_right _ (by decide)
  refine nearestOrdinal_lt unitsPerOne_pos ?_
  generalize (Binary64.ofNat n).units = number at hn
  generalize (powerOfTen e).units = power at hpower
  generalize unitsAt lastBinade = below at h hroom
  generalize unitsAt (infinityOrdinal - 1) = greatest at hroom
  generalize unitsPerOne = one at hn hpower h
  refine Nat.le_of_mul_le_mul_left ?_ (show 0 < 2 ^ 53 * 2 ^ 53 by decide)
  calc 2 ^ 53 * 2 ^ 53 * (number * power)
      = 2 ^ 53 * number * (2 ^ 53 * power) := by ring
    _ ≤ (2 ^ 53 + 1) * (n * one) * ((2 ^ 53 + 1) * (10 ^ e * one)) := Nat.mul_le_mul hn hpower
    _ = (2 ^ 53 + 1) * (2 ^ 53 + 1) * (n * 10 ^ e * one) * one := by ring
    _ ≤ (2 ^ 53 + 1) * (2 ^ 53 + 1) * below * one :=
        Nat.mul_le_mul_right _ (Nat.mul_le_mul_left _ h)
    _ ≤ 2 ^ 53 * 2 ^ 53 * greatest * one := Nat.mul_le_mul_right _ hroom
    _ = 2 ^ 53 * 2 ^ 53 * (greatest * one) := Nat.mul_assoc _ _ _

/-- The greatest multiple of each power of ten that the last binade holds is scaled to
    a finite number. -/
theorem productOrdinal_greatest : ∀ k < 18,
    productOrdinal (.ofNat (unitsAt (infinityOrdinal - 1) / (10 ^ (291 + k) * unitsPerOne)))
      (powerOfTen (291 + k)) < infinityOrdinal := by
  decide +kernel

theorem productOrdinal_lt (hgrid : 291 ≤ e) (he : e ≤ 308)
    (h : n * 10 ^ e * unitsPerOne ≤ unitsAt (infinityOrdinal - 1)) :
    productOrdinal (.ofNat n) (powerOfTen e) < infinityOrdinal := by
  have hgreatest := productOrdinal_greatest (e - 291) (by omega)
  rw [Nat.add_sub_cancel' hgrid] at hgreatest
  have hscale : 0 < 10 ^ e * unitsPerOne :=
    Nat.mul_pos (Nat.pow_pos (by decide)) unitsPerOne_pos
  have hle : n ≤ unitsAt (infinityOrdinal - 1) / (10 ^ e * unitsPerOne) := by
    rw [Nat.le_div_iff_mul_le hscale, ← Nat.mul_assoc]
    exact h
  have hunits := unitsAt_mono (ordinal_ofNat_mono hle)
  exact Nat.lt_of_le_of_lt
    (nearestOrdinal_mono unitsPerOne_pos (Nat.mul_le_mul_right _ hunits)) hgreatest

/-- No power of ten above `10 ^ 308` is in the range of numbers. -/
theorem le_of_notAbove {e : Int} (hn : n ≠ 0) (he : 0 ≤ e)
    (h : NotAbove n e (infinityOrdinal - 1)) : e ≤ 308 := by
  by_contra hlarge
  have hrange := notAbove_of_nonneg h he
  have hpow := Nat.pow_le_pow_right (show 0 < 10 by decide) (show 309 ≤ e.toNat by omega)
  have hbeyond := range_bounds.beyond
  have hle : 10 ^ e.toNat ≤ n * 10 ^ e.toNat := Nat.le_mul_of_pos_left _ (Nat.pos_of_ne_zero hn)
  have := Nat.mul_le_mul_right unitsPerOne (Nat.le_trans hpow hle)
  omega

/-- A word scaled within the range of numbers is read. -/
theorem isSome_scaled? {e : Int} (hn : Word.fits 64 n = true) (h : 0 ≤ e → InRange n e) :
    (scaled? n e).isSome = true := by
  unfold scaled?
  simp only
  split_ifs with hneg hzero hlarge hfinite
  · rfl
  · rfl
  · rfl
  · -- the product is finite after all
    refine absurd (isFinite_mul (isFinite_ofNat hn) (isFinite_powerOfTen (by omega)) ?_) hfinite
    rcases h (by omega) with h | ⟨hgrid, h⟩
    · exact productOrdinal_lt_of_lastBinade (notAbove_of_nonneg h (by omega))
    · exact productOrdinal_lt (by omega) (by omega) (notAbove_of_nonneg h (by omega))
  · refine absurd (le_of_notAbove hzero (by omega) ?_) hlarge
    rcases h (by omega) with h | ⟨-, h⟩
    · have hmono := unitsAt_mono (show lastBinade ≤ infinityOrdinal - 1 by decide)
      exact Nat.le_trans h (Nat.mul_le_mul_right _ (Nat.mul_le_mul_left _ hmono))
    · exact h

/-! ### Digits that fit a word -/

variable {cs : List Char}

/-- The digits that are taken fit a word and are leading digits of all of them. -/
structure Taken (n : Nat) (cs : List Char) (taken : Nat × Nat) : Prop where
  fits : Word.fits 64 taken.1 = true
  count_le : taken.2 ≤ cs.length
  leading : taken.1 * 10 ^ (cs.length - taken.2) ≤ n * 10 ^ cs.length + Decimal.ofDigits cs

theorem taken_fittingDigits (h : Word.fits 64 n = true) (cs : List Char) :
    Taken n cs (fittingDigits n cs) := by
  induction cs generalizing n with
  | nil => exact ⟨h, Nat.le_refl _, Nat.le_add_right _ _⟩
  | cons c cs ih =>
    rw [fittingDigits]
    simp only
    split
    case isTrue hfits =>
      obtain ⟨hfits', hcount, hleading⟩ := ih hfits
      refine ⟨hfits', Nat.succ_le_succ hcount, ?_⟩
      rw [List.length_cons, Nat.add_sub_add_right, Decimal.ofDigits_cons, Nat.pow_succ]
      refine Nat.le_trans hleading (Nat.le_of_eq ?_)
      ring
    case isFalse => exact ⟨h, Nat.zero_le _, Nat.le_add_right _ _⟩

/-- Digits that fit a word together are all taken. -/
theorem fittingDigits_eq (h : Word.fits 64 (n * 10 ^ cs.length + Decimal.ofDigits cs) = true) :
    fittingDigits n cs = (n * 10 ^ cs.length + Decimal.ofDigits cs, cs.length) := by
  induction cs generalizing n with
  | nil => rw [fittingDigits, List.length_nil, Nat.pow_zero, Nat.mul_one]; rfl
  | cons c cs ih =>
    have hvalue : n * 10 ^ (c :: cs).length + Decimal.ofDigits (c :: cs) =
        (10 * n + Decimal.digitValue c) * 10 ^ cs.length + Decimal.ofDigits cs := by
      rw [List.length_cons, Decimal.ofDigits_cons, Nat.pow_succ]
      ring
    rw [hvalue] at h ⊢
    have hle : 10 * n + Decimal.digitValue c ≤
        (10 * n + Decimal.digitValue c) * 10 ^ cs.length + Decimal.ofDigits cs :=
      Nat.le_trans (Nat.le_mul_of_pos_right _ (Nat.pow_pos (by decide))) (Nat.le_add_right _ _)
    have hnext : Word.fits 64 (10 * n + Decimal.digitValue c) = true :=
      decide_eq_true (Nat.lt_of_le_of_lt hle (of_decide_eq_true h))
    rw [fittingDigits]
    simp only [hnext, if_true, ih h, List.length_cons]

/-- So many digits fit a word in any case. -/
theorem fittingDigits_zero (run : DigitRun) (h : run.digits.length ≤ 16) :
    fittingDigits 0 run.digits = (Decimal.ofDigits run.digits, run.digits.length) := by
  have hlt := Decimal.ofDigits_lt run.isDigit
  have hpow : 10 ^ run.digits.length ≤ 10 ^ 16 := Nat.pow_le_pow_right (by decide) h
  have hword : 10 ^ 16 < Word.count 64 := by decide
  have hfits : Word.fits 64 (0 * 10 ^ run.digits.length + Decimal.ofDigits run.digits) = true := by
    refine decide_eq_true ?_
    omega
  rw [fittingDigits_eq hfits, Nat.zero_mul, Nat.zero_add]

/-! ### Tokens -/

/-- A word as it is lies far below the last binade. -/
theorem inRange_of_fits (h : Word.fits 64 n = true) : InRange n 0 := by
  have hlt : n < Word.count 64 := of_decide_eq_true h
  have hroom := (Nat.mul_le_mul_right unitsPerOne hlt.le).trans range_bounds.word
  refine .inl ?_
  rw [NotAbove, gridStep_of_nonneg (Int.le_refl 0)]
  simp only [Int.toNat_zero, pow_zero, Nat.one_mul, Nat.mul_one, Nat.mul_left_comm n 2]
  exact Nat.mul_le_mul_left 2 hroom

/-- Reading a number whose digits before the point fit a word. -/
theorem isSome_binary64?_eq {parts : NumberParts} {whole : Nat}
    (hwhole : fittingDigits 0 parts.whole = (whole, parts.whole.length))
    (hparts : parts.fraction.isSome ∨ parts.exponent.isSome) :
    parts.binary64?.isSome =
      (scaled? (fittingDigits whole (parts.fraction.getD [])).1
        (parts.exponent.getD 0 - (fittingDigits whole (parts.fraction.getD [])).2)).isSome := by
  obtain ⟨negative, ds, fraction, exponent⟩ := parts
  simp only at hwhole hparts
  unfold NumberParts.binary64?
  simp only [hwhole, Option.isSome_map, Nat.sub_self]
  cases fraction with
  | some fraction => simp only [Option.getD_some, Int.natCast_zero, Int.add_zero]
  | none =>
    cases exponent with
    | some exponent =>
      simp only [Option.getD_none, Option.getD_some, Int.natCast_zero, Int.add_zero]
    | none => simp at hparts

/-- **A numeral that writes the digits of a finite number is read.** -/
theorem isSome_binary64?_parts {numeral : Numeral} {ordinal : Nat} (hlt : ordinal < infinityOrdinal)
    (h : numeral.Writes (shortest .even ordinal)) : numeral.parts.binary64?.isSome = true := by
  have hrange := inRange_shortest hlt
  generalize shortest .even ordinal = d at h hrange
  have hshort : numeral.whole.digits.length ≤ 16 := by
    cases h with
    | positional _ _ hlength => exact hlength
    | exponential _ hlength _ _ => omega
  have hwhole : fittingDigits 0 numeral.parts.whole =
      (Decimal.ofDigits numeral.whole.digits, numeral.parts.whole.length) :=
    fittingDigits_zero numeral.whole hshort
  have hword : Word.fits 64 (Decimal.ofDigits numeral.whole.digits) = true := by
    have htaken := (taken_fittingDigits (show Word.fits 64 0 = true by decide)
      numeral.parts.whole).fits
    rwa [hwhole] at htaken
  have hparts : numeral.parts.fraction.isSome ∨ numeral.parts.exponent.isSome := by
    cases h with
    | positional hfraction _ _ => exact .inl (by rw [Numeral.parts, Option.isSome_map, hfraction])
    | exponential hexponent _ _ _ => exact .inr (by rw [Numeral.parts, hexponent]; rfl)
  have htaken := taken_fittingDigits hword (numeral.parts.fraction.getD [])
  rw [isSome_binary64?_eq hwhole hparts]
  generalize hfraction : numeral.parts.fraction.getD [] = fraction at htaken
  generalize fittingDigits _ fraction = taken at htaken
  refine isSome_scaled? htaken.fits fun hnonneg => ?_
  cases h with
  | positional _ hexponent _ =>
    -- without an exponent all digits taken stand before the point
    have hnone : numeral.parts.exponent.getD 0 = 0 := by
      rw [Numeral.parts, hexponent]
      rfl
    have hplace : numeral.parts.exponent.getD 0 - (taken.2 : Int) = 0 := by omega
    rw [hplace]
    exact inRange_of_fits htaken.fits
  | exponential hexponent _ hvalue hplace =>
    rw [hfraction] at hvalue hplace
    have hsome : numeral.parts.exponent.getD 0 = d.exponent + fraction.length := by
      rw [Numeral.parts, hexponent]
      exact hplace
    have hcount := htaken.count_le
    refine hrange.of_leading (by omega) ?_
    have hbehind : (numeral.parts.exponent.getD 0 - (taken.2 : Int) - d.exponent).toNat =
        fraction.length - taken.2 := by omega
    rw [hbehind, ← hvalue, Decimal.ofDigits_append]
    exact htaken.leading

/-- **What is written for a number is read as a quantity exactly if it is finite.** -/
theorem isSome_binary64?_ofBinary64 (x : Binary64) :
    (binary64? (ofBinary64 x)).isSome = x.isFinite := by
  rw [ofBinary64]
  split
  case isTrue h =>
    obtain ⟨numeral, htext, hplain, hwrites⟩ := exists_numeral_scientific h
    have hordinal : x.ordinal < infinityOrdinal := of_decide_eq_true h
    rw [h, htext, binary64?, Numeral.numberParts?_eq_some hplain, Option.bind_some]
    exact isSome_binary64?_parts hordinal hwrites
  case isFalse h =>
    rw [Bool.not_eq_true] at h
    rw [h]
    rfl

end Json

end Throughput
