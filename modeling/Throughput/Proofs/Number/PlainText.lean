/-
  Throughput/Proofs/Number/PlainText.lean
  =======================================
  **Plain numbers read back.**  The plain form of a number is read as that number,
  and that of any NaN as the NaN without a sign (`Binary64.ofText?_plain`).  The digits
  written out are the shortest ones (`Digits.unsigned?_positional`), the decimal they
  make lies around the number, and rounding leads back from there.
-/
import Throughput.Proofs.Number.Digits
import Throughput.Proofs.Number.Shortest

namespace Throughput

theorem Binary64.eq_of_ordinal {x y : Binary64} (hnegative : x.negative = y.negative)
    (hordinal : x.ordinal = y.ordinal) : x = y := by
  cases x
  cases y
  cases hnegative
  cases hordinal
  rfl

theorem Binary64.negative_ofUnits (negative : Bool) (n d : Nat) :
    (ofUnits negative n d).negative = negative := rfl

theorem Binary64.ofUnits_eq {x : Binary64} {n d : Nat} (h : nearestOrdinal n d = x.ordinal) :
    ofUnits x.negative n d = x :=
  eq_of_ordinal (negative_ofUnits _ n d) h

/-- A decimal without a positive power of ten, not far out of range, is rounded as
    the quotient it is. -/
theorem Decimal.toBinary64_eq_ofUnits {d : Decimal} (hdigits : d.digits ≠ 0)
    (hexponent : d.exponent ≤ 0) (hrange : -400 ≤ d.exponent + (d.digits.log2 + 1 : Nat)) :
    d.toBinary64 = .ofUnits d.negative (d.digits * Binary64.unitsPerOne)
      (10 ^ (-d.exponent).toNat) := by
  have hfar : ¬400 < d.exponent := by omega
  have hnear : ¬d.exponent + (d.digits.log2 + 1 : Nat) < -400 := by omega
  rw [toBinary64, if_neg hdigits, if_neg hfar, if_neg hnear]
  split
  case isTrue h =>
    have hzero : d.exponent = 0 := Int.le_antisymm hexponent h
    rw [hzero]
    change Binary64.ofUnits d.negative (d.digits * 1 * Binary64.unitsPerOne) 1 = _
    rw [Nat.mul_one]
    rfl
  case isFalse => rfl

/-! ### The digits written out -/

namespace Digits

/-- A decimal with a power of ten that is not positive. -/
def decimal (negative : Bool) (d : Digits) : Decimal :=
  if 0 ≤ d.exponent then ⟨negative, d.significand * 10 ^ d.exponent.toNat, 0⟩
  else ⟨negative, d.significand, d.exponent⟩

/-- Digits written out begin with a digit and are made of digits and points. -/
theorem exists_positional_cons (d : Digits) :
    ∃ c cs, d.positional = c :: cs ∧ Decimal.isDigit c = true ∧
      ∀ c ∈ cs, Decimal.isDigit c = true ∨ c = '.' := by
  have hof : ∀ run : DigitRun, ∃ c cs, run.digits = c :: cs ∧ Decimal.isDigit c = true ∧
      ∀ c ∈ cs, Decimal.isDigit c = true := by
    intro run
    obtain ⟨c, cs, hrun, hc⟩ := run.exists_cons
    exact ⟨c, cs, hrun, hc, fun b hb => run.isDigit b (by simp [hrun, hb])⟩
  unfold positional
  split
  case isTrue =>
    obtain ⟨c, cs, hrun, hc, hcs⟩ := hof ((DigitRun.ofNat d.significand).shifted d.exponent.toNat)
    exact ⟨c, cs, hrun, hc, fun b hb => .inl (hcs b hb)⟩
  case isFalse h =>
    obtain ⟨whole, fraction, hpointed⟩ :=
      (DigitRun.ofNat d.significand).exists_pointed (show 0 < (-d.exponent).toNat by omega)
    obtain ⟨c, cs, hrun, hc, hcs⟩ := hof whole
    refine ⟨c, cs ++ '.' :: fraction.digits, ?_, hc, fun b hb => ?_⟩
    · rw [← List.cons_append, ← hrun]
      exact hpointed.text_eq
    · rcases List.mem_append.1 hb with hb | hb
      · exact .inl (hcs b hb)
      · rcases List.mem_cons.1 hb with rfl | hb
        · exact .inr rfl
        · exact .inl (fraction.isDigit b hb)

theorem unsigned?_digits (negative : Bool) (run : DigitRun) :
    Decimal.unsigned? negative run.digits = some ⟨negative, Decimal.ofDigits run.digits, 0⟩ := by
  have htake : run.digits.takeWhile Decimal.isDigit = run.digits := by
    simpa using takeWhile_append_of_ends run.isDigit ends_nil
  have hdrop : run.digits.dropWhile Decimal.isDigit = [] := by
    simpa using dropWhile_append_of_ends run.isDigit ends_nil
  have hne : run.digits.isEmpty = false := by simpa using run.ne_nil
  simp [Decimal.unsigned?, htake, hdrop, hne, Decimal.splitFraction, Decimal.exponent?]

theorem unsigned?_pointed (negative : Bool) (whole fraction : DigitRun) :
    Decimal.unsigned? negative (whole.digits ++ '.' :: fraction.digits) =
      some ⟨negative, Decimal.ofDigits (whole.digits ++ fraction.digits),
        -(fraction.digits.length : Int)⟩ := by
  have hends : Ends Decimal.isDigit ('.' :: fraction.digits) := ends_cons.2 (by decide)
  have htake : fraction.digits.takeWhile Decimal.isDigit = fraction.digits := by
    simpa using takeWhile_append_of_ends fraction.isDigit ends_nil
  have hdrop : fraction.digits.dropWhile Decimal.isDigit = [] := by
    simpa using dropWhile_append_of_ends fraction.isDigit ends_nil
  have hne : whole.digits.isEmpty = false := by simpa using whole.ne_nil
  simp [Decimal.unsigned?, takeWhile_append_of_ends whole.isDigit hends,
    dropWhile_append_of_ends whole.isDigit hends, htake, hdrop, hne, Decimal.splitFraction,
    Decimal.exponent?]

theorem unsigned?_positional (negative : Bool) (d : Digits) :
    Decimal.unsigned? negative d.positional = some (d.decimal negative) := by
  have hdigits : Decimal.ofDigits (DigitRun.ofNat d.significand).digits = d.significand :=
    Decimal.ofDigits_digitsOf _
  unfold positional decimal
  split
  case isTrue h =>
    have hvalue := DigitRun.ofDigits_shifted (.ofNat d.significand) d.exponent.toNat
    rw [hdigits] at hvalue
    rw [← hvalue]
    exact unsigned?_digits negative ((DigitRun.ofNat d.significand).shifted d.exponent.toNat)
  case isFalse h =>
    obtain ⟨whole, fraction, hpointed⟩ :=
      (DigitRun.ofNat d.significand).exists_pointed (show 0 < (-d.exponent).toNat by omega)
    have htext : withPoint (-d.exponent).toNat (digitsOf d.significand) =
        whole.digits ++ '.' :: fraction.digits := hpointed.text_eq
    have hplaces : -(fraction.digits.length : Int) = d.exponent := by
      rw [hpointed.length_fraction]
      omega
    rw [htext, unsigned?_pointed, hpointed.value_eq, hdigits, hplaces]

/-! ### Their value -/

variable {tie : Tie} {ordinal : Nat}

/-- The shortest digits of a number are not out of the range of decimals that are
    rounded. -/
theorem neg_le_exponent_shortest (tie : Tie) (hpos : 0 < ordinal) (hlt : ordinal < infinityOrdinal)
    (hneg : (shortest tie ordinal).exponent < 0) :
    -400 ≤ (shortest tie ordinal).exponent +
      ((shortest tie ordinal).significand.log2 + 1 : Nat) := by
  obtain ⟨hlower, -⟩ := (holds_around _ _).1 (shortest_holds tie hpos hlt)
  have hunits : 1 ≤ Binary64.unitsAt (ordinal - 1) + Binary64.unitsAt ordinal :=
    Nat.le_add_left_of_le (Binary64.unitsAt_pos hpos)
  generalize shortest tie ordinal = d at hlower hneg
  rw [gridStep_of_neg hneg] at hlower
  have hscale : 10 ^ (-d.exponent).toNat ≤ d.significand * (2 * Binary64.unitsPerOne) :=
    Nat.le_trans (Nat.le_mul_of_pos_left _ hunits) hlower
  by_contra hfar
  -- so small a power of ten is less than a unit for each of the digits
  have hplaces : 401 + (d.significand.log2 + 1) ≤ (-d.exponent).toNat := by omega
  have hone : 2 * Binary64.unitsPerOne ≤ 10 ^ 401 := by decide +kernel
  have hdigits : d.significand < 10 ^ (d.significand.log2 + 1) :=
    Nat.lt_of_lt_of_le Nat.lt_log2_self (Nat.pow_le_pow_left (by decide) _)
  have hpow : 10 ^ 401 * 10 ^ (d.significand.log2 + 1) ≤ 10 ^ (-d.exponent).toNat := by
    rw [← Nat.pow_add]
    exact Nat.pow_le_pow_right (by decide) hplaces
  have hless : 2 * Binary64.unitsPerOne * d.significand <
      10 ^ 401 * 10 ^ (d.significand.log2 + 1) :=
    Nat.mul_lt_mul_of_le_of_lt hone hdigits (by decide +kernel)
  rw [Nat.mul_comm] at hless
  omega

/-- The decimal lies around the number as the digits do. -/
theorem holds_decimal {d : Digits} {i : Interval} (negative : Bool)
    (h : i.holds (gridStep d.exponent).2 (d.significand * (gridStep d.exponent).1) = true) :
    i.holds (10 ^ (-(d.decimal negative).exponent).toNat)
      (2 * ((d.decimal negative).digits * Binary64.unitsPerOne)) = true := by
  unfold decimal
  split
  case isTrue hexponent =>
    rw [gridStep_of_nonneg hexponent] at h
    generalize Binary64.unitsPerOne = units at h ⊢
    have hdigits : 2 * (d.significand * 10 ^ d.exponent.toNat * units) =
        d.significand * (10 ^ d.exponent.toNat * (2 * units)) := by ring
    rw [hdigits]
    exact h
  case isFalse hexponent =>
    rw [gridStep_of_neg (by omega), Nat.mul_left_comm] at h
    exact h

/-- Digits around a number make a decimal that is rounded to the number. -/
theorem toBinary64_decimal_of_holds {x : Binary64} {d : Digits} (hle : x.ordinal ≤ infinityOrdinal)
    (hsignificand : 0 < d.significand)
    (hrange : d.exponent < 0 → -400 ≤ d.exponent + (d.significand.log2 + 1 : Nat))
    (h : (Interval.around x.ordinal).holds (gridStep d.exponent).2
      (d.significand * (gridStep d.exponent).1) = true) :
    (d.decimal x.negative).toBinary64 = x := by
  have hdigits : (d.decimal x.negative).digits ≠ 0 := by
    unfold decimal
    split
    · exact (Nat.mul_pos hsignificand (Nat.pow_pos (by decide))).ne'
    · exact hsignificand.ne'
  have hexponent : (d.decimal x.negative).exponent ≤ 0 := by
    unfold decimal
    split
    · exact Int.le_refl 0
    · simp only
      omega
  have hinside : -400 ≤ (d.decimal x.negative).exponent +
      ((d.decimal x.negative).digits.log2 + 1 : Nat) := by
    unfold decimal
    split
    · simp only
      omega
    · exact hrange (by omega)
  have hnegative : (d.decimal x.negative).negative = x.negative := by
    unfold decimal
    split <;> rfl
  have hscale : 0 < 10 ^ (-(d.decimal x.negative).exponent).toNat := Nat.pow_pos (by decide)
  have hordinal := nearestOrdinal_of_holds hscale hle (holds_decimal x.negative h)
  rw [Decimal.toBinary64_eq_ofUnits hdigits hexponent hinside, hnegative]
  exact Binary64.ofUnits_eq hordinal

theorem toBinary64_decimal_shortest {x : Binary64} (hpos : 0 < x.ordinal)
    (hlt : x.ordinal < infinityOrdinal) (tie : Tie) :
    ((shortest tie x.ordinal).decimal x.negative).toBinary64 = x :=
  toBinary64_decimal_of_holds hlt.le (significand_shortest_pos tie hpos hlt)
    (neg_le_exponent_shortest tie hpos hlt) (shortest_holds tie hpos hlt)

end Digits

/-! ### Plain numbers -/

namespace Binary64

theorem splitSign_signText (x : Binary64) {c : Char} (hc : c ≠ '-' ∧ c ≠ '+') (cs : List Char) :
    Decimal.splitSign (x.signText.toList ++ c :: cs) = (x.negative, c :: cs) := by
  rw [signText]
  cases x.negative with
  | true => rfl
  | false =>
    change Decimal.splitSign (c :: cs) = _
    unfold Decimal.splitSign
    split
    next heq => exact absurd (List.cons.inj heq).1 hc.1
    next heq => exact absurd (List.cons.inj heq).1 hc.2
    next => rfl

/-- What begins with a digit is none of the words for numbers. -/
theorem ofText?_of_isDigit (x : Binary64) {c : Char} (hc : Decimal.isDigit c = true)
    (cs : List Char) :
    ofText? (x.signText.toList ++ c :: cs) =
      (Decimal.unsigned? x.negative (c :: cs)).map Decimal.toBinary64 := by
  have hsign : c ≠ '-' ∧ c ≠ '+' :=
    ⟨Decimal.ne_of_isDigit hc (by decide), Decimal.ne_of_isDigit hc (by decide)⟩
  have hword : ∀ word : String, word.toList.head? ≠ some c →
      String.ofList ((c :: cs).map lowerAscii) ≠ word := by
    rintro word hne rfl
    simp [lowerAscii_of_isDigit hc] at hne
  have hnan := hword "nan" (by rintro h; cases h; cases hc)
  have hinf := hword "inf" (by rintro h; cases h; cases hc)
  have hinfinity := hword "infinity" (by rintro h; cases h; cases hc)
  rw [ofText?, splitSign_signText x hsign]
  simp only [if_neg hnan, if_neg (not_or.2 ⟨hinf, hinfinity⟩)]

theorem plain_of_isNaN {x : Binary64} (h : x.isNaN = true) : x.plain = "NaN" := if_pos h

/-- **A number is read from its plain form.** -/
theorem ofText?_plain {x : Binary64} (h : x.isNaN = false) : ofText? x.plain.toList = some x := by
  rw [plain, if_neg (by rw [h]; decide)]
  split_ifs with hinfinite hzero
  · have hx : x = infinity x.negative := eq_of_ordinal rfl (beq_iff_eq.1 hinfinite)
    rw [hx]
    cases x.negative <;> rfl
  · have hx : x = zero x.negative := eq_of_ordinal rfl (beq_iff_eq.1 hzero)
    rw [hx]
    cases x.negative <;> rfl
  · have hpos : 0 < x.ordinal := Nat.pos_of_ne_zero (by simpa [isZero] using hzero)
    have hlt : x.ordinal < infinityOrdinal := by
      simp only [isNaN, decide_eq_false_iff_not, isInfinite, beq_iff_eq] at h hinfinite
      omega
    obtain ⟨c, cs, hdigits, hc, -⟩ := (Digits.shortest .upper x.ordinal).exists_positional_cons
    have hdecimal := Digits.unsigned?_positional x.negative (Digits.shortest .upper x.ordinal)
    rw [String.toList_append, String.toList_ofList, hdigits, ofText?_of_isDigit x hc, ← hdigits,
      hdecimal, Option.map_some, Digits.toBinary64_decimal_shortest hpos hlt]

/-- The same number, where all NaNs count as one. -/
def Same (x y : Binary64) : Prop := x = y ∨ x.isNaN = true ∧ y.isNaN = true

theorem exists_ofText?_plain (x : Binary64) : ∃ y, ofText? x.plain.toList = some y ∧ Same y x := by
  cases h : x.isNaN with
  | true => exact ⟨nan false, by rw [plain_of_isNaN h]; rfl, .inr ⟨by decide, h⟩⟩
  | false => exact ⟨x, ofText?_plain h, .inl rfl⟩

/-! ### The characters of a number -/

/-- What stands in the text of a number besides digits. -/
def marks : List Char := ['-', '.', 'i', 'n', 'f', 'N', 'a']

section Characters

variable {p : Char → Bool} (hdigit : ∀ c, Decimal.isDigit c = true → p c = true)
  (hmark : marks.all p = true)
include hmark

theorem all_of_marks {text : String} (h : text.toList.all (marks.contains ·) = true) :
    ∀ c ∈ text.toList, p c = true := by
  intro c hc
  have hmem : marks.contains c = true := List.all_eq_true.1 h c hc
  exact List.all_eq_true.1 hmark c (List.contains_iff_mem.1 hmem)

/-- The sign in front changes nothing about the characters. -/
theorem all_signed (x : Binary64) {text : String} (h : ∀ c ∈ text.toList, p c = true) :
    ∀ c ∈ (x.signText ++ text).toList, p c = true := by
  have hsign : ∀ c ∈ x.signText.toList, p c = true := by
    apply all_of_marks hmark
    rw [signText]
    cases x.negative <;> decide
  intro c hc
  rw [String.toList_append] at hc
  rcases List.mem_append.1 hc with hc | hc
  · exact hsign c hc
  · exact h c hc

include hdigit

theorem plain_all (x : Binary64) : ∀ c ∈ x.plain.toList, p c = true := by
  have hpoint : p '.' = true := List.all_eq_true.1 hmark _ (by simp [marks])
  rw [plain]
  split_ifs
  · exact all_of_marks hmark (by decide)
  · exact all_signed hmark x (all_of_marks hmark (by decide))
  · apply all_signed hmark
    intro c hc
    obtain rfl : c = '0' := by simpa using hc
    exact hdigit _ (by decide)
  · apply all_signed hmark
    obtain ⟨b, bs, hdigits, hb, hbs⟩ := (Digits.shortest .upper x.ordinal).exists_positional_cons
    intro c hc
    rw [hdigits, String.toList_ofList] at hc
    rcases List.mem_cons.1 hc with rfl | hc
    · exact hdigit c hb
    · rcases hbs c hc with hc | rfl
      · exact hdigit c hc
      · exact hpoint

theorem fixed_all (places : Nat) (x : Binary64) : ∀ c ∈ (x.fixed places).toList, p c = true := by
  have hpoint : p '.' = true := List.all_eq_true.1 hmark _ (by simp [marks])
  simp only [fixed]
  split_ifs
  · exact all_of_marks hmark (by decide)
  · exact all_signed hmark x (all_of_marks hmark (by decide))
  · apply all_signed hmark
    intro c hc
    rw [String.toList_ofList, withPoint] at hc
    generalize roundHalfEven _ _ = n at hc
    have hpadded : ∀ c ∈ padLeft (places + 1) (digitsOf n), p c = true := fun c hc =>
      hdigit c (Decimal.isDigit_padLeft _ (fun _ => Decimal.isDigit_digitsOf) c hc)
    split_ifs at hc
    · exact hpadded c hc
    · rcases List.mem_append.1 hc with hc | hc
      · exact hpadded c (List.mem_of_mem_take hc)
      · rcases List.mem_cons.1 hc with rfl | hc
        · exact hpoint
        · exact hpadded c (List.mem_of_mem_drop hc)

end Characters

theorem plain_ne_nil (x : Binary64) : x.plain.toList ≠ [] := by
  rw [plain]
  split_ifs
  · decide
  · simp
  · simp
  · obtain ⟨b, bs, hdigits, -, -⟩ := (Digits.shortest .upper x.ordinal).exists_positional_cons
    simp [hdigits]

/-- A plain number is one word without commas. -/
theorem plain_isWord (x : Binary64) :
    x.plain.toList ≠ [] ∧ ∀ c ∈ x.plain.toList, Text.isBlank c = false ∧ c ≠ ',' := by
  refine ⟨x.plain_ne_nil, ?_⟩
  have hall : ∀ c ∈ x.plain.toList, (!Text.isBlank c && c != ',') = true := by
    apply plain_all _ (by decide)
    intro c hc
    simp [Decimal.isBlank_of_isDigit hc, Decimal.ne_of_isDigit hc (d := ',') (by decide)]
  intro c hc
  simpa using hall c hc

end Binary64

end Throughput
