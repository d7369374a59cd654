/-
  Throughput/Proofs/Number/Shortest.lean
  ======================================
  **The fewest digits lie around the number.**  A grid that is no wider than the
  gap below a number has a multiple in the interval of the decimals that round to
  it, and the search always reaches such a grid (`gridStep_le_gap`).  So the digits
  found lie in that interval (`shortest_holds`): they are no less than one, do not
  exceed the greatest number, and rounding leads back from them
  (`nearestOrdinal_of_holds`).
-/
import Throughput.Number.Shortest
import Throughput.Proofs.Number.Rounding

namespace Throughput.Digits

open Binary64

/-! ### Grids -/

variable {tie : Tie} {ordinal n grids : Nat} {e least : Int}

/-- The half units that make one. -/
theorem halves_eq : Nat.pow 2 1075 = 2 * unitsPerOne := by decide +kernel

theorem gridStep_of_nonneg (h : 0 ≤ e) : gridStep e = (10 ^ e.toNat * (2 * unitsPerOne), 1) := by
  rw [gridStep, if_pos h, halves_eq]
  rfl

theorem gridStep_of_neg (h : e < 0) : gridStep e = (2 * unitsPerOne, 10 ^ (-e).toNat) := by
  rw [gridStep, if_neg (by omega), halves_eq]
  rfl

theorem gridStep_pos (e : Int) : 0 < (gridStep e).1 ∧ 0 < (gridStep e).2 := by
  unfold gridStep
  generalize 1075 = places
  split
  · exact ⟨Nat.mul_pos (Nat.pow_pos (by decide)) (Nat.pow_pos (by decide)), Nat.one_pos⟩
  · exact ⟨Nat.pow_pos (by decide), Nat.pow_pos (by decide)⟩

/-- From a finer grid to a coarser one the step grows by a power of ten. -/
theorem gridStep_of_le (h : least ≤ e) :
    (gridStep e).1 * (gridStep least).2 =
      10 ^ (e - least).toNat * (gridStep least).1 * (gridStep e).2 := by
  rcases Int.lt_or_le e 0 with he | he
  · have hpow : 10 ^ (-least).toNat = 10 ^ (e - least).toNat * 10 ^ (-e).toNat := by
      rw [← Nat.pow_add]
      congr 1
      omega
    rw [gridStep_of_neg he, gridStep_of_neg (show least < 0 by omega), hpow]
    ring
  · rcases Int.lt_or_le least 0 with hleast | hleast
    · have hpow : 10 ^ (e - least).toNat = 10 ^ e.toNat * 10 ^ (-least).toNat := by
        rw [← Nat.pow_add]
        congr 1
        omega
      rw [gridStep_of_nonneg he, gridStep_of_neg hleast, hpow]
      ring
    · have hpow : 10 ^ e.toNat = 10 ^ (e - least).toNat * 10 ^ least.toNat := by
        rw [← Nat.pow_add]
        congr 1
        omega
      rw [gridStep_of_nonneg he, gridStep_of_nonneg hleast, hpow]
      ring

/-- Whether the ends of the interval belong to it depends on the place. -/
theorem holds_around (scale k : Nat) :
    (Interval.around ordinal).holds scale k = true ↔
      (unitsAt (ordinal - 1) + unitsAt ordinal) * scale ≤ k ∧
      k ≤ (unitsAt ordinal + unitsAt (ordinal + 1)) * scale ∧
      (ordinal % 2 = 1 → (unitsAt (ordinal - 1) + unitsAt ordinal) * scale < k ∧
        k < (unitsAt ordinal + unitsAt (ordinal + 1)) * scale) := by
  rcases Nat.mod_two_eq_zero_or_one ordinal with h | h
  · simp [Interval.holds, Interval.around, h]
  · simp only [Interval.holds, Interval.around, h, Nat.reduceBEq, Bool.false_eq_true, if_false,
      Bool.and_eq_true, decide_eq_true_eq, forall_const]
    constructor
    · exact fun hk => ⟨hk.1.le, hk.2.le, hk⟩
    · exact fun hk => hk.2.2

/-- Whether a decimal lies in the interval does not depend on its denominator. -/
theorem Interval.holds_mul {i : Interval} {scale k c : Nat} (hc : 0 < c) :
    i.holds (scale * c) (k * c) = i.holds scale k := by
  simp only [holds, ← Nat.mul_assoc, Nat.mul_le_mul_right_iff hc, Nat.mul_lt_mul_right hc]

/-- A candidate lies in the interval, whichever of the two multiples it is. -/
theorem holds_of_candidate? (h : candidate? tie ordinal e = some n) :
    (Interval.around ordinal).holds (gridStep e).2 (n * (gridStep e).1) = true := by
  simp only [candidate?] at h
  generalize 2 * unitsAt ordinal * (gridStep e).2 / (gridStep e).1 = below at h
  split at h
  next hbelow habove =>
    split at h
    · cases h; exact hbelow
    · split at h
      · cases h; exact habove
      · split at h
        · cases h; exact habove
        · cases h
          rcases Nat.mod_two_eq_zero_or_one below with hparity | hparity
          · rw [hparity]; exact hbelow
          · rw [hparity]; exact habove
  next hbelow _ => cases h; exact hbelow
  next _ habove => cases h; exact habove
  next => cases h

/-- A grid has a candidate if the multiple below the number is one. -/
theorem isSome_candidate?_of_holds (h : (Interval.around ordinal).holds (gridStep e).2
    (2 * unitsAt ordinal * (gridStep e).2 / (gridStep e).1 * (gridStep e).1) = true) (tie : Tie) :
    (candidate? tie ordinal e).isSome = true := by
  simp only [candidate?, h]
  split
  · split
    · rfl
    · split
      · rfl
      · split <;> rfl
  · rfl
  next hnone _ => cases hnone
  next hnone _ => cases hnone

/-- A grid that is no wider than the gap below a number has a candidate: the multiple
    below the number is one. -/
theorem isSome_candidate? (h : (gridStep e).1 ≤ (unitsAt ordinal - unitsAt (ordinal - 1)) *
    (gridStep e).2) (tie : Tie) : (candidate? tie ordinal e).isSome = true := by
  refine isSome_candidate?_of_holds ?_ tie
  obtain ⟨hstep, hscale⟩ := gridStep_pos e
  have hdiv := Nat.div_add_mod' (2 * unitsAt ordinal * (gridStep e).2) (gridStep e).1
  have hmod := Nat.mod_lt (2 * unitsAt ordinal * (gridStep e).2) hstep
  have hmono := unitsAt_mono (Nat.sub_le ordinal 1)
  have hnext := Nat.mul_lt_mul_of_pos_right (unitsAt_lt_succ ordinal) hscale
  have hsplit : (unitsAt ordinal - unitsAt (ordinal - 1)) * (gridStep e).2 +
      unitsAt (ordinal - 1) * (gridStep e).2 = unitsAt ordinal * (gridStep e).2 := by
    rw [← Nat.add_mul, Nat.sub_add_cancel hmono]
  rw [holds_around]
  simp only [Nat.mul_assoc 2, Nat.add_mul] at hdiv hmod ⊢
  omega

/-- A grid that a number lies on has a candidate: the number itself. -/
theorem isSome_candidate?_of_dvd (hpos : 0 < ordinal)
    (h : (gridStep e).1 ∣ 2 * unitsAt ordinal * (gridStep e).2) (tie : Tie) :
    (candidate? tie ordinal e).isSome = true := by
  refine isSome_candidate?_of_holds ?_ tie
  have hscale := (gridStep_pos e).2
  have hbelow := Nat.mul_lt_mul_of_pos_right
    (unitsAt_strictMono (show ordinal - 1 < ordinal by omega)) hscale
  have habove := Nat.mul_lt_mul_of_pos_right (unitsAt_lt_succ ordinal) hscale
  rw [Nat.div_mul_cancel h, holds_around]
  simp only [Nat.mul_assoc 2, Nat.add_mul]
  omega

/-! ### The search -/

/-- The search ends at a candidate, no finer than any grid on its way that has one. -/
theorem exists_searchFrom (hreached : e - grids < least) (hleast : least ≤ e)
    (hsome : (candidate? tie ordinal least).isSome = true) :
    ∃ n found, searchFrom tie ordinal grids e = ⟨n, found⟩ ∧
      candidate? tie ordinal found = some n ∧ least ≤ found := by
  induction grids generalizing e with
  | zero => omega
  | succ grids ih =>
    rw [searchFrom]
    split
    next n hn => exact ⟨n, e, rfl, hn, hleast⟩
    next hnone =>
      have hne : least ≠ e := by
        rintro rfl
        rw [hnone] at hsome
        cases hsome
      exact ih (by omega) (by omega)

/-- The finest grid tried, by the binary digits of the number. -/
def finestExponent (log : Nat) : Int := ((log : Int) - 1073) * 30103 / 100000 + 1 - 20

theorem finestExponent_mono {log log' : Nat} (h : log ≤ log') :
    finestExponent log ≤ finestExponent log' := by
  unfold finestExponent
  omega

/-- Of eight numbers of binary digits in a row, the grid for the last is fine enough for
    the first. -/
theorem gridStep_le_gap_of_block : ∀ k < 263,
    (gridStep (finestExponent (8 * k + 7))).1 ≤
      2 ^ (8 * k - 53) * (gridStep (finestExponent (8 * k + 7))).2 := by
  decide +kernel

/-- On the way down the search comes to a grid that is fine enough for every number of
    so many binary digits. -/
theorem gridStep_le_gap {log : Nat} (h : log < 52 + 2046) :
    (gridStep (finestExponent log)).1 ≤ 2 ^ (log - 53) * (gridStep (finestExponent log)).2 := by
  have hblock := gridStep_le_gap_of_block (log / 8) (by omega)
  have hgrid := gridStep_of_le (finestExponent_mono (show log ≤ 8 * (log / 8) + 7 by omega))
  have hpow : 2 ^ (8 * (log / 8) - 53) ≤ 2 ^ (log - 53) :=
    Nat.pow_le_pow_right (by decide) (by omega)
  have hscale := (gridStep_pos (finestExponent (8 * (log / 8) + 7))).2
  generalize finestExponent (8 * (log / 8) + 7) = coarse at hblock hgrid hscale
  generalize finestExponent log = fine at hgrid
  have hpower : 0 < 10 ^ (coarse - fine).toNat := Nat.pow_pos (by decide)
  refine Nat.le_of_mul_le_mul_right ?_ hscale
  calc (gridStep fine).1 * (gridStep coarse).2
      ≤ 10 ^ (coarse - fine).toNat * ((gridStep fine).1 * (gridStep coarse).2) :=
        Nat.le_mul_of_pos_left _ hpower
    _ = (gridStep coarse).1 * (gridStep fine).2 := by rw [hgrid, Nat.mul_assoc]
    _ ≤ 2 ^ (8 * (log / 8) - 53) * (gridStep coarse).2 * (gridStep fine).2 :=
        Nat.mul_le_mul_right _ hblock
    _ ≤ 2 ^ (log - 53) * (gridStep coarse).2 * (gridStep fine).2 :=
        Nat.mul_le_mul_right _ (Nat.mul_le_mul_right _ hpow)
    _ = 2 ^ (log - 53) * (gridStep fine).2 * (gridStep coarse).2 := Nat.mul_right_comm _ _ _

theorem log2_unitsAt_lt (hpos : 0 < ordinal) (hlt : ordinal < infinityOrdinal) :
    (unitsAt ordinal).log2 < 52 + 2046 := by
  have hlog : ∀ k, unitsAt ordinal < 2 ^ k → (unitsAt ordinal).log2 < k := fun _ =>
    (Nat.log2_lt (unitsAt_pos hpos).ne').2
  refine hlog _ ?_
  rw [← unitsAt_infinityOrdinal]
  exact unitsAt_strictMono hlt

/-- The gap below a number of so many binary digits. -/
theorem pow_log2_le_gap (hpos : 0 < ordinal) :
    2 ^ ((unitsAt ordinal).log2 - 53) ≤ unitsAt ordinal - unitsAt (ordinal - 1) := by
  obtain ⟨before, rfl⟩ := Nat.exists_eq_add_one_of_ne_zero hpos.ne'
  obtain ⟨step, significand, h, rfl⟩ := exists_binade before
  have hlog := Nat.log2_self_le (unitsAt_pos hpos).ne'
  have hlt := h.significand_lt
  rw [h.unitsAt_succ] at hlog
  rw [Nat.add_sub_cancel, h.unitsAt_eq, h.unitsAt_succ]
  generalize ((significand + 1) * 2 ^ step).log2 = log at hlog
  have hle : log ≤ 53 + step := by
    refine (Nat.pow_le_pow_iff_right (by decide : 1 < 2)).1 (Nat.le_trans hlog ?_)
    rw [Nat.pow_add]
    exact Nat.mul_le_mul_right _ hlt
  rw [Nat.add_mul, Nat.one_mul, Nat.add_sub_cancel_left]
  exact Nat.pow_le_pow_right (by decide) (by omega)

/-- The search starts at a coarser grid than the finest one, and ends behind it. -/
theorem finestExponent_bounds (ordinal : Nat) :
    exponentAbove ordinal - (21 : Nat) < finestExponent (unitsAt ordinal).log2 ∧
      finestExponent (unitsAt ordinal).log2 ≤ exponentAbove ordinal := by
  rw [finestExponent, exponentAbove]
  omega

/-- The finest grid has a candidate. -/
theorem isSome_candidate?_finest (hpos : 0 < ordinal) (hlt : ordinal < infinityOrdinal)
    (tie : Tie) :
    (candidate? tie ordinal (finestExponent (unitsAt ordinal).log2)).isSome = true :=
  isSome_candidate? (Nat.le_trans (gridStep_le_gap (log2_unitsAt_lt hpos hlt))
    (Nat.mul_le_mul_right _ (pow_log2_le_gap hpos))) tie

/-- **The digits found are a candidate**, on a grid no finer than any that has one. -/
theorem exists_shortest (tie : Tie) (hpos : 0 < ordinal) (hlt : ordinal < infinityOrdinal) :
    ∃ n found, shortest tie ordinal = ⟨n, found⟩ ∧ candidate? tie ordinal found = some n := by
  obtain ⟨hreached, hleast⟩ := finestExponent_bounds ordinal
  obtain ⟨n, found, hfound, hn, -⟩ :=
    exists_searchFrom hreached hleast (isSome_candidate?_finest hpos hlt tie)
  exact ⟨n, found, hfound, hn⟩

/-- **The digits found lie in the interval around the number.** -/
theorem shortest_holds (tie : Tie) (hpos : 0 < ordinal) (hlt : ordinal < infinityOrdinal) :
    (Interval.around ordinal).holds (gridStep (shortest tie ordinal).exponent).2
      ((shortest tie ordinal).significand * (gridStep (shortest tie ordinal).exponent).1) =
        true := by
  obtain ⟨n, found, hfound, hn⟩ := exists_shortest tie hpos hlt
  rw [hfound]
  exact holds_of_candidate? hn

theorem significand_shortest_pos (tie : Tie) (hpos : 0 < ordinal)
    (hlt : ordinal < infinityOrdinal) : 0 < (shortest tie ordinal).significand := by
  obtain ⟨hlower, -⟩ := (holds_around _ _).1 (shortest_holds tie hpos hlt)
  have hscale := (gridStep_pos (shortest tie ordinal).exponent).2
  have hunits := Nat.mul_pos (Nat.add_pos_right (unitsAt (ordinal - 1)) (unitsAt_pos hpos)) hscale
  exact Nat.pos_of_mul_pos_right (Nat.lt_of_lt_of_le hunits hlower)

/-- Rounding leads from the interval around a number to the number. -/
theorem nearestOrdinal_of_holds {scale k : Nat} (hscale : 0 < scale)
    (hle : ordinal ≤ infinityOrdinal)
    (h : (Interval.around ordinal).holds scale (2 * k) = true) :
    nearestOrdinal k scale = ordinal := by
  obtain ⟨hlower, hupper, hodd⟩ := (holds_around _ _).1 h
  exact nearestOrdinal_eq_of_between hscale hle hlower hupper hodd

end Throughput.Digits
