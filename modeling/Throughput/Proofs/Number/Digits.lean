/-
  Throughput/Proofs/Number/Digits.lean
  ====================================
  **Digits read back.**  The digits of a number are digits, start with a zero
  only if they are one, and read as the number again, with zeros in front of
  them or without.  A reader that takes digits off the front of a text takes a
  run of digits whole if no digit follows it (`takeWhile_append_of_ends`).
-/
import Mathlib.Algebra.Ring.Nat
import Throughput.Number.Decimal
import Throughput.Number.Text
import Throughput.Text.Blank

namespace Throughput

/-! ### The front of a text -/

/-- No character of a kind stands at the front of a text. -/
def Ends (p : Char → Bool) (rest : List Char) : Prop := ∀ c ∈ rest.head?, p c = false

variable {p : Char → Bool} {cs rest : List Char}

theorem ends_nil : Ends p [] := by simp [Ends]

theorem ends_cons {c : Char} : Ends p (c :: rest) ↔ p c = false := by simp [Ends]

theorem Ends.takeWhile_eq_nil (h : Ends p rest) : rest.takeWhile p = [] := by
  cases rest with
  | nil => rfl
  | cons c rest => simp [ends_cons.1 h]

theorem Ends.dropWhile_eq_self (h : Ends p rest) : rest.dropWhile p = rest := by
  cases rest with
  | nil => rfl
  | cons c rest => simp [ends_cons.1 h]

theorem takeWhile_append_of_ends (hp : ∀ c ∈ cs, p c = true) (h : Ends p rest) :
    (cs ++ rest).takeWhile p = cs := by
  rw [List.takeWhile_append_of_pos hp, h.takeWhile_eq_nil, List.append_nil]

theorem dropWhile_append_of_ends (hp : ∀ c ∈ cs, p c = true) (h : Ends p rest) :
    (cs ++ rest).dropWhile p = rest := by
  rw [List.dropWhile_append_of_pos hp, h.dropWhile_eq_self]

/-! ### The digits of a number -/

namespace Decimal

theorem isDigit_eq (c : Char) : isDigit c = c.isDigit := by
  simp only [isDigit, Char.isDigit, Char.le_def, UInt32.le_iff_toNat_le, ge_iff_le]

theorem bounds_of_isDigit {c : Char} (h : isDigit c = true) : 48 ≤ c.toNat ∧ c.toNat ≤ 57 := by
  simp only [isDigit, Bool.and_eq_true, decide_eq_true_eq, Char.le_def,
    UInt32.le_iff_toNat_le] at h
  exact h

theorem isBlank_of_isDigit {c : Char} (h : isDigit c = true) : Text.isBlank c = false := by
  have hbounds := bounds_of_isDigit h
  simp only [Text.isBlank, Bool.or_eq_false_iff, Bool.and_eq_false_iff, decide_eq_false_iff_not,
    beq_eq_false_iff_ne]
  omega

/-- A character outside the ten digits is none of the digits. -/
theorem ne_of_isDigit {c d : Char} (h : isDigit c = true) (hd : isDigit d = false) : c ≠ d := by
  rintro rfl
  rw [h] at hd
  cases hd

theorem isDigit_digitsOf {n : Nat} {c : Char} (h : c ∈ digitsOf n) : isDigit c = true := by
  rw [isDigit_eq]
  exact Nat.isDigit_of_mem_toDigits (by decide) (by decide) h

theorem isDigit_zeros {n : Nat} {c : Char} (h : c ∈ List.replicate n '0') : isDigit c = true := by
  rw [List.eq_of_mem_replicate h]
  rfl

theorem isDigit_padLeft (width : Nat) {cs : List Char} (h : ∀ c ∈ cs, isDigit c = true) :
    ∀ c ∈ padLeft width cs, isDigit c = true := by
  intro c hc
  rcases List.mem_append.1 hc with hc | hc
  · exact isDigit_zeros hc
  · exact h c hc

theorem ofDigits_eq_ofDigitChars (cs : List Char) : ofDigits cs = Nat.ofDigitChars 10 cs 0 := by
  rw [ofDigits_eq_foldl]
  rfl

@[simp] theorem ofDigits_digitsOf (n : Nat) : ofDigits (digitsOf n) = n := by
  rw [ofDigits_eq_ofDigitChars]
  exact Nat.ofDigitChars_ten_toDigits

theorem ofDigits_append (cs ds : List Char) :
    ofDigits (cs ++ ds) = ofDigits cs * 10 ^ ds.length + ofDigits ds := by
  simp only [ofDigits_eq_ofDigitChars, Nat.ofDigitChars_append]
  rw [Nat.ofDigitChars_eq_ofDigitChars_zero, Nat.mul_comm]

theorem ofDigits_cons (c : Char) (cs : List Char) :
    ofDigits (c :: cs) = digitValue c * 10 ^ cs.length + ofDigits cs := by
  have hone : ofDigits [c] = digitValue c := by
    rw [ofDigits_eq_foldl, List.foldl_cons, List.foldl_nil, Nat.mul_zero, Nat.zero_add]
  rw [← List.singleton_append, ofDigits_append, hone]

theorem ofDigits_lt {cs : List Char} (h : ∀ c ∈ cs, isDigit c = true) :
    ofDigits cs < 10 ^ cs.length := by
  induction cs with
  | nil => decide
  | cons c cs ih =>
    have hrest := ih fun d hd => h d (List.mem_cons_of_mem _ hd)
    have hbounds := bounds_of_isDigit (h c List.mem_cons_self)
    have hdigit : digitValue c ≤ 9 := by
      change c.toNat - 48 ≤ 9
      omega
    have hmul := Nat.mul_le_mul_right (10 ^ cs.length) hdigit
    rw [ofDigits_cons, List.length_cons, Nat.pow_succ]
    omega

theorem ofDigits_zeros (n : Nat) : ofDigits (List.replicate n '0') = 0 := by
  rw [ofDigits_eq_ofDigitChars, Nat.ofDigitChars_replicate_zero, Nat.mul_zero]

@[simp] theorem ofDigits_padLeft (width : Nat) (cs : List Char) :
    ofDigits (padLeft width cs) = ofDigits cs := by
  simp only [ofDigits_eq_ofDigitChars, padLeft, Nat.ofDigitChars_append,
    Nat.ofDigitChars_replicate_zero, Nat.mul_zero]

end Decimal

/-! ### Letters -/

theorem lowerAscii_eq_self {c : Char} (h : c.toNat < 65 ∨ 90 < c.toNat) : lowerAscii c = c := by
  rw [lowerAscii, if_neg]
  rintro ⟨hlower, hupper⟩
  rw [Char.le_def, UInt32.le_iff_toNat_le] at hlower hupper
  have hlower' : 65 ≤ c.toNat := hlower
  have hupper' : c.toNat ≤ 90 := hupper
  omega

/-- A digit has no other case. -/
theorem lowerAscii_of_isDigit {c : Char} (h : Decimal.isDigit c = true) : lowerAscii c = c := by
  have hbounds := Decimal.bounds_of_isDigit h
  exact lowerAscii_eq_self (by omega)

/-! ### Lengths and first digits -/

theorem digitsOf_ne_nil (n : Nat) : digitsOf n ≠ [] := Nat.toDigits_ne_nil

theorem length_padLeft (width : Nat) (cs : List Char) :
    (padLeft width cs).length = max width cs.length := by
  simp only [padLeft, List.length_append, List.length_replicate]
  omega

/-- The digits of a number start with a zero only if the number is zero. -/
theorem eq_zero_of_head?_digitsOf {n : Nat} (h : (digitsOf n).head? = some '0') : n = 0 := by
  induction n using Nat.strongRecOn with
  | ind n ih =>
    rw [digitsOf, Nat.toDigits_eq_if (by decide)] at h
    split at h
    case isTrue hn =>
      have hzero : ∀ k < 10, [k.digitChar].head? = some '0' → k = 0 := by decide
      exact hzero n hn h
    case isFalse hn =>
      -- the last digit is not the first one, and the number before it is not zero
      rw [List.head?_append, Option.or_of_isSome (by simp [Nat.toDigits_ne_nil])] at h
      have := ih (n / 10) (by omega) h
      omega

/-! ### Runs of digits -/

/-- At least one digit, and nothing else. -/
structure DigitRun where
  digits : List Char
  ne_nil : digits ≠ []
  isDigit : ∀ c ∈ digits, Decimal.isDigit c = true

namespace DigitRun

def ofNat (n : Nat) : DigitRun := ⟨digitsOf n, digitsOf_ne_nil n, fun _ => Decimal.isDigit_digitsOf⟩

/-- The digit `0`. -/
def zero : DigitRun := ofNat 0

theorem exists_cons (run : DigitRun) :
    ∃ c cs, run.digits = c :: cs ∧ Decimal.isDigit c = true := by
  obtain ⟨c, cs, h⟩ := List.exists_cons_of_ne_nil run.ne_nil
  exact ⟨c, cs, h, run.isDigit c (by simp [h])⟩

/-- Zeros behind a run of digits. -/
def shifted (run : DigitRun) (zeros : Nat) : DigitRun where
  digits := run.digits ++ List.replicate zeros '0'
  ne_nil := by simp [run.ne_nil]
  isDigit c hc := by
    rcases List.mem_append.1 hc with hc | hc
    · exact run.isDigit c hc
    · exact Decimal.isDigit_zeros hc

/-- No further digit stands behind a lonely zero at the front. -/
def IsPlain (run : DigitRun) : Prop := run.digits.head? = some '0' → run.digits = ['0']

theorem isPlain_ofNat (n : Nat) : (ofNat n).IsPlain := by
  intro h
  have hn : n = 0 := eq_zero_of_head?_digitsOf h
  subst hn
  rfl

theorem isPlain_shifted {n : Nat} (h : 0 < n) (zeros : Nat) :
    ((ofNat n).shifted zeros).IsPlain := by
  intro hhead
  have hfirst : (digitsOf n).head? = some '0' := by
    rw [← hhead]
    exact (List.head?_append.trans (Option.or_of_isSome (by simp [digitsOf_ne_nil]))).symm
  exact absurd (eq_zero_of_head?_digitsOf hfirst) (Nat.ne_of_gt h)

theorem ofDigits_shifted (run : DigitRun) (zeros : Nat) :
    Decimal.ofDigits (run.shifted zeros).digits = Decimal.ofDigits run.digits * 10 ^ zeros := by
  rw [shifted, Decimal.ofDigits_append, Decimal.ofDigits_zeros, Nat.add_zero, List.length_replicate]

theorem length_ofNat (n : Nat) : (ofNat n).digits.length = (digitsOf n).length := rfl

/-- Two runs of digits with a point between them write the same number together as
    the one run did. -/
structure Pointed (run : DigitRun) (places : Nat) (whole fraction : DigitRun) : Prop where
  text_eq : withPoint places run.digits = whole.digits ++ '.' :: fraction.digits
  value_eq : Decimal.ofDigits (whole.digits ++ fraction.digits) = Decimal.ofDigits run.digits
  length_fraction : fraction.digits.length = places
  length_whole : whole.digits.length = max 1 (run.digits.length - places)
  isPlain_whole : run.IsPlain → whole.IsPlain

theorem exists_pointed (run : DigitRun) {places : Nat} (h : 0 < places) :
    ∃ whole fraction, Pointed run places whole fraction := by
  have hlength := length_padLeft (places + 1) run.digits
  have hdigit := Decimal.isDigit_padLeft (places + 1) run.isDigit
  have hvalue := Decimal.ofDigits_padLeft (places + 1) run.digits
  have hplain : run.IsPlain → places < run.digits.length →
      (padLeft (places + 1) run.digits).head? = some '0' → False := by
    intro hplain hlong hhead
    have hnone : places + 1 - run.digits.length = 0 := by omega
    rw [padLeft, hnone, List.replicate_zero, List.nil_append] at hhead
    have hone : run.digits.length = 1 := by rw [hplain hhead]; rfl
    omega
  have htext : withPoint places run.digits =
      (padLeft (places + 1) run.digits).take ((padLeft (places + 1) run.digits).length - places) ++
        '.' :: (padLeft (places + 1) run.digits).drop
          ((padLeft (places + 1) run.digits).length - places) := by
    rw [withPoint, if_neg (Nat.ne_of_gt h)]
  generalize padLeft (places + 1) run.digits = padded at hlength hdigit hvalue hplain htext
  have hwhole : padded.take (padded.length - places) ≠ [] := by
    rw [ne_eq, ← List.length_eq_zero_iff, List.length_take]
    omega
  have hfraction : padded.drop (padded.length - places) ≠ [] := by
    rw [ne_eq, ← List.length_eq_zero_iff, List.length_drop]
    omega
  refine ⟨⟨_, hwhole, fun c hc => hdigit c (List.mem_of_mem_take hc)⟩,
    ⟨_, hfraction, fun c hc => hdigit c (List.mem_of_mem_drop hc)⟩, htext, ?_, ?_, ?_, ?_⟩
  · rw [List.take_append_drop, hvalue]
  · rw [List.length_drop]
    omega
  · rw [List.length_take]
    omega
  · -- a zero in front is the only digit there unless the run itself begins with it
    intro hrun hhead
    rw [List.head?_take, if_neg (by omega)] at hhead
    rcases Nat.lt_or_ge places run.digits.length with hlong | hshort
    · exact absurd hhead (hplain hrun hlong)
    · have hone : padded.length - places = 1 := by omega
      obtain ⟨cs, rfl⟩ := List.head?_eq_some_iff.1 hhead
      simp only [hone, List.take_succ_cons, List.take_zero]

end DigitRun

end Throughput
