/-
  Throughput/Proofs/Json/Numerals.lean
  ====================================
  **Numbers in JSON text.**  A numeral is what the grammar of JSON numbers lets
  be written, but for zeros in front of the first digit.  Both forms in which
  numbers are written are numerals: the digits of a natural number, and the
  scientific form (`exists_numeral_scientific`).  Reading takes a numeral apart
  into what it was made of (`numberParts?_text`).
-/
import Throughput.Json.Reader
import Throughput.Proofs.Number.Digits
import Throughput.Proofs.Number.Shortest

namespace Throughput

open Json

/-! ### Numerals -/

/-- The digits and signs of a number.  An exponent always has a sign, `-` if it is
    negative. -/
structure Numeral where
  negative : Bool
  whole : DigitRun
  fraction : Option DigitRun
  exponent : Option (Bool × DigitRun)

namespace Numeral

def signText (negative : Bool) : List Char := if negative then ['-'] else []

def fractionText : Option DigitRun → List Char
  | none => []
  | some run => '.' :: run.digits

def exponentText : Option (Bool × DigitRun) → List Char
  | none => []
  | some (negative, run) => 'e' :: (if negative then '-' else '+') :: run.digits

def text (n : Numeral) : List Char :=
  signText n.negative ++ (n.whole.digits ++ (fractionText n.fraction ++ exponentText n.exponent))

def exponentValue (negative : Bool) (run : DigitRun) : Int :=
  if negative then -(Decimal.ofDigits run.digits : Int) else Decimal.ofDigits run.digits

def parts (n : Numeral) : NumberParts where
  negative := n.negative
  whole := n.whole.digits
  fraction := n.fraction.map (·.digits)
  exponent := n.exponent.map fun (negative, run) => exponentValue negative run

/-! ### Reading a numeral -/

theorem ends_exponentText (exponent : Option (Bool × DigitRun)) :
    Ends Decimal.isDigit (exponentText exponent) := by
  cases exponent with
  | none => exact ends_nil
  | some e => exact ends_cons.2 (by decide)

theorem ends_fractionText (fraction : Option DigitRun) (exponent : Option (Bool × DigitRun)) :
    Ends Decimal.isDigit (fractionText fraction ++ exponentText exponent) := by
  cases fraction with
  | none => exact ends_exponentText exponent
  | some run => exact ends_cons.2 (by decide)

theorem digits?_append (run : DigitRun) {rest : List Char} (h : Ends Decimal.isDigit rest) :
    digits? (run.digits ++ rest) = some (run.digits, rest) := by
  have hne : run.digits.isEmpty = false := by simpa using run.ne_nil
  simp only [digits?, takeWhile_append_of_ends run.isDigit h, hne,
    dropWhile_append_of_ends run.isDigit h, Bool.false_eq_true, if_false]

theorem wholePart?_append (run : DigitRun) {rest : List Char} (h : Ends Decimal.isDigit rest) :
    wholePart? (run.digits ++ rest) =
      if run.digits.head? = some '0' ∧ run.digits ≠ ['0'] then none
      else some (run.digits, rest) := by
  simp only [wholePart?, digits?_append run h, Option.bind_eq_bind, Option.bind_some]
  split <;> rfl

theorem fractionPart?_append (fraction : Option DigitRun) (exponent : Option (Bool × DigitRun)) :
    fractionPart? (fractionText fraction ++ exponentText exponent) =
      some (fraction.map (·.digits), exponentText exponent) := by
  cases fraction with
  | some run =>
    have h := digits?_append run (ends_exponentText exponent)
    simp [fractionText, fractionPart?, h]
  | none =>
    cases exponent with
    | none => rfl
    | some e => rfl

theorem exponentPart?_text (exponent : Option (Bool × DigitRun)) :
    exponentPart? (exponentText exponent) =
      some (exponent.map fun (negative, run) => exponentValue negative run, []) := by
  cases exponent with
  | none => rfl
  | some e =>
    obtain ⟨negative, run⟩ := e
    have h : digits? run.digits = some (run.digits, []) := by
      simpa using digits?_append run ends_nil
    cases negative <;>
      simp [exponentText, exponentPart?, Decimal.splitSign, h, exponentValue]

/-- The parts of a number behind its sign. -/
def unsignedParts? (negative : Bool) (cs : List Char) : Option (NumberParts × List Char) :=
  (wholePart? cs).bind fun whole =>
    (fractionPart? whole.2).bind fun fraction =>
      (exponentPart? fraction.2).bind fun exponent =>
        some (⟨negative, whole.1, fraction.1, exponent.1⟩, exponent.2)

theorem numberParts?_minus (cs : List Char) :
    numberParts? ('-' :: cs) = unsignedParts? true cs := rfl

theorem numberParts?_of_ne_minus {c : Char} (h : c ≠ '-') (cs : List Char) :
    numberParts? (c :: cs) = unsignedParts? false (c :: cs) := by
  rw [numberParts?]
  · rfl
  · intro rest heq
    exact h (List.cons.inj heq).1

theorem numberParts?_signText (negative : Bool) (run : DigitRun) (rest : List Char) :
    numberParts? (signText negative ++ (run.digits ++ rest)) =
      unsignedParts? negative (run.digits ++ rest) := by
  cases negative with
  | true => exact numberParts?_minus _
  | false =>
    obtain ⟨c, cs, hc, hdigit⟩ := run.exists_cons
    have hminus : c ≠ '-' := by
      rintro rfl
      exact absurd hdigit (by decide)
    rw [hc, List.cons_append]
    exact numberParts?_of_ne_minus hminus _

/-- **A numeral is read as what it was made of**, and refused if its first digits
    are a zero and others. -/
theorem numberParts?_text (n : Numeral) :
    numberParts? n.text =
      if n.whole.digits.head? = some '0' ∧ n.whole.digits ≠ ['0'] then none
      else some (n.parts, []) := by
  rw [text, numberParts?_signText, unsignedParts?, wholePart?_append _ (ends_fractionText _ _)]
  split
  · rfl
  · simp only [Option.bind_some, fractionPart?_append, exponentPart?_text]
    rfl

theorem numberParts?_eq_some {n : Numeral} (h : n.whole.IsPlain) :
    numberParts? n.text = some (n.parts, []) := by
  rw [numberParts?_text, if_neg]
  exact fun hn => hn.2 (h hn.1)

/-! ### The characters of a numeral -/

theorem isNumberChar_of_isDigit {c : Char} (h : Decimal.isDigit c = true) :
    isNumberChar c = true := by
  simp [isNumberChar, h]

theorem isNumberChar_text (n : Numeral) : ∀ c ∈ n.text, isNumberChar c = true := by
  have hrun : ∀ run : DigitRun, ∀ c ∈ run.digits, isNumberChar c = true := fun run c hc =>
    isNumberChar_of_isDigit (run.isDigit c hc)
  intro c hc
  simp only [text, List.mem_append] at hc
  rcases hc with hc | hc | hc | hc
  · cases hn : n.negative with
    | true =>
      simp only [hn, signText, if_true, List.mem_singleton] at hc
      subst hc
      decide
    | false => simp [hn, signText] at hc
  · exact hrun n.whole c hc
  · cases hf : n.fraction with
    | none => simp [hf, fractionText] at hc
    | some run =>
      simp only [hf, fractionText, List.mem_cons] at hc
      rcases hc with rfl | hc
      · decide
      · exact hrun run c hc
  · cases he : n.exponent with
    | none => simp [he, exponentText] at hc
    | some e =>
      obtain ⟨negative, run⟩ := e
      simp only [he, exponentText, List.mem_cons] at hc
      rcases hc with rfl | rfl | hc
      · decide
      · cases negative <;> decide
      · exact hrun run c hc

/-- A numeral begins with a minus sign or a digit; the point and the slash between
    these begin nothing else either. -/
theorem head_bounds {n : Numeral} {c : Char} (h : c ∈ n.text.head?) :
    '-'.toNat ≤ c.toNat ∧ c.toNat ≤ '9'.toNat := by
  cases hn : n.negative with
  | true =>
    simp only [text, hn, signText, if_true, List.singleton_append, List.head?_cons,
      Option.mem_some] at h
    subst h
    decide
  | false =>
    obtain ⟨d, ds, hd, hdigit⟩ := n.whole.exists_cons
    simp only [text, hn, signText, hd, Bool.false_eq_true, if_false, List.nil_append,
      List.cons_append, List.head?_cons, Option.mem_some] at h
    subst h
    have hbounds := Decimal.bounds_of_isDigit hdigit
    exact ⟨Nat.le_trans (by decide) hbounds.1, hbounds.2⟩

theorem text_ne_nil (n : Numeral) : n.text ≠ [] := by
  simp [text, n.whole.ne_nil]

/-! ### What is written -/

/-- A natural number as a numeral. -/
def ofNat (n : Nat) : Numeral := ⟨false, .ofNat n, none, none⟩

theorem text_ofNat (n : Nat) : (ofNat n).text = digitsOf n := by
  simp [text, ofNat, signText, fractionText, exponentText, DigitRun.ofNat]

end Numeral

/-- Digits written out begin with a zero only in front of a point, and have one digit
    before it at least. -/
theorem Digits.exists_numeral_positional {d : Digits} (h : 0 < d.significand) :
    ∃ whole fraction : DigitRun,
      d.positional ++ (if 0 ≤ d.exponent then ['.', '0'] else []) =
        whole.digits ++ '.' :: fraction.digits ∧
      whole.IsPlain ∧ (whole.digits.length : Int) = max 1 (d.leadingExponent + 1) := by
  have hlength : 0 < (digitsOf d.significand).length :=
    List.length_pos_iff.2 (digitsOf_ne_nil _)
  unfold positional leadingExponent
  split
  case isTrue hexponent =>
    refine ⟨(DigitRun.ofNat d.significand).shifted d.exponent.toNat, .zero, rfl,
      DigitRun.isPlain_shifted h _, ?_⟩
    simp only [DigitRun.shifted, List.length_append, List.length_replicate, DigitRun.length_ofNat]
    omega
  case isFalse hexponent =>
    obtain ⟨whole, fraction, hrun⟩ :=
      (DigitRun.ofNat d.significand).exists_pointed (show 0 < (-d.exponent).toNat by omega)
    refine ⟨whole, fraction, ?_, hrun.isPlain_whole (DigitRun.isPlain_ofNat _), ?_⟩
    · rw [List.append_nil]
      exact hrun.text_eq
    · rw [hrun.length_whole, DigitRun.length_ofNat]
      omega

/-- With an exponent there is one digit in front of the point, and the exponent is
    that of the last digit. -/
theorem Digits.exists_numeral_exponential (d : Digits) :
    ∃ (whole : DigitRun) (fraction : Option DigitRun) (exponent : Bool × DigitRun),
      d.exponential = whole.digits ++
        (Numeral.fractionText fraction ++ Numeral.exponentText (some exponent)) ∧
      whole.IsPlain ∧ whole.digits.length = 1 ∧
      Decimal.ofDigits (whole.digits ++ (fraction.map (·.digits)).getD []) = d.significand ∧
      Numeral.exponentValue exponent.1 exponent.2 =
        d.exponent + ((fraction.map (·.digits)).getD []).length := by
  have hlength : 0 < (digitsOf d.significand).length :=
    List.length_pos_iff.2 (digitsOf_ne_nil _)
  let exponent := (decide (d.leadingExponent < 0), DigitRun.ofNat d.leadingExponent.natAbs)
  have hexponent : 'e' :: (if d.leadingExponent < 0 then '-' else '+') ::
      digitsOf d.leadingExponent.natAbs = Numeral.exponentText (some exponent) := by
    simp [Numeral.exponentText, exponent, DigitRun.ofNat]
  have hvalue : Numeral.exponentValue exponent.1 exponent.2 = d.leadingExponent := by
    have hdigits : Decimal.ofDigits exponent.2.digits = d.leadingExponent.natAbs :=
      Decimal.ofDigits_digitsOf _
    simp only [Numeral.exponentValue, hdigits, exponent, decide_eq_true_eq]
    split <;> omega
  unfold exponential
  simp only [hexponent]
  split
  case isTrue hone =>
    refine ⟨.ofNat d.significand, none, exponent, rfl, DigitRun.isPlain_ofNat _, ?_, ?_, ?_⟩
    · rw [DigitRun.length_ofNat]
      omega
    · rw [Option.map_none, Option.getD_none, List.append_nil]
      exact Decimal.ofDigits_digitsOf _
    · rw [hvalue, leadingExponent, Option.map_none, Option.getD_none, List.length_nil]
      omega
  case isFalse hmore =>
    obtain ⟨whole, fraction, hrun⟩ := (DigitRun.ofNat d.significand).exists_pointed
      (show 0 < (digitsOf d.significand).length - 1 by omega)
    refine ⟨whole, some fraction, exponent, ?_, hrun.isPlain_whole (DigitRun.isPlain_ofNat _),
      ?_, ?_, ?_⟩
    · rw [show digitsOf d.significand = (DigitRun.ofNat d.significand).digits from rfl,
        DigitRun.length_ofNat, hrun.text_eq, List.append_assoc]
      rfl
    · rw [hrun.length_whole, DigitRun.length_ofNat]
      omega
    · rw [Option.map_some, Option.getD_some, hrun.value_eq]
      exact Decimal.ofDigits_digitsOf _
    · rw [hvalue, leadingExponent, Option.map_some, Option.getD_some, hrun.length_fraction]
      omega

theorem Binary64.toList_signText (x : Binary64) :
    x.signText.toList = Numeral.signText x.negative := by
  unfold signText Numeral.signText
  split <;> rfl

/-- A numeral that writes digits: with a point and no exponent it has at most sixteen
    digits before the point, with an exponent it has one. -/
inductive Numeral.Writes (d : Digits) (n : Numeral) : Prop where
  | positional (fraction : n.fraction.isSome) (exponent : n.exponent = none)
      (length : n.whole.digits.length ≤ 16)
  | exponential {negative : Bool} {run : DigitRun} (exponent : n.exponent = some (negative, run))
      (length : n.whole.digits.length = 1)
      (value : Decimal.ofDigits (n.whole.digits ++ n.parts.fraction.getD []) = d.significand)
      (place : Numeral.exponentValue negative run =
        d.exponent + (n.parts.fraction.getD []).length)

/-- **The scientific form of a finite number is a numeral** that writes its shortest
    digits. -/
theorem Binary64.exists_numeral_scientific {x : Binary64} (h : x.isFinite = true) :
    ∃ n : Numeral, x.scientific.toList = n.text ∧ n.whole.IsPlain ∧
      n.Writes (Digits.shortest .even x.ordinal) := by
  unfold scientific
  split
  case isTrue =>
    refine ⟨⟨x.negative, .zero, some .zero, none⟩, ?_, DigitRun.isPlain_ofNat 0,
      .positional rfl rfl (show DigitRun.zero.digits.length ≤ 16 by decide)⟩
    rw [String.toList_append, toList_signText]
    rfl
  case isFalse hzero =>
    have hpos : 0 < x.ordinal := Nat.pos_of_ne_zero (by simpa [isZero] using hzero)
    have hsignificand := Digits.significand_shortest_pos .even hpos (by simpa [isFinite] using h)
    generalize Digits.shortest .even x.ordinal = d at hsignificand
    simp only
    split
    case isTrue hlead =>
      obtain ⟨whole, fraction, htext, hplain, hlength⟩ :=
        Digits.exists_numeral_positional hsignificand
      have hshort : whole.digits.length ≤ 16 := by omega
      refine ⟨⟨x.negative, whole, some fraction, none⟩, ?_, hplain, .positional rfl rfl hshort⟩
      simp only [String.toList_append, String.toList_ofList, toList_signText, Numeral.text,
        Numeral.fractionText, Numeral.exponentText, List.append_nil, List.append_assoc, ← htext]
      congr 2
      split <;> rfl
    case isFalse =>
      obtain ⟨whole, fraction, exponent, htext, hplain, hlength, hvalue, hplace⟩ :=
        d.exists_numeral_exponential
      refine ⟨⟨x.negative, whole, fraction, some exponent⟩, ?_, hplain,
        .exponential rfl hlength hvalue hplace⟩
      rw [String.toList_append, String.toList_ofList, toList_signText, htext]
      rfl

end Throughput
