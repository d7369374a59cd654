/-
  Throughput/Proofs/Toml/Words.lean
  =================================
  **Numbers in TOML text.**  `ReadsAs` says that a text is read as a value in front of
  whatever can follow a value.  Numbers written with a point (`readsAs_pointed`), whole
  numbers of 64 bits (`readsAs_intText`) and the infinite one do so.  A word of digits could
  also begin a date; what follows its digits tells the two apart (`date?_eq_none`).
-/
import Throughput.Proofs.Number.Pointed
import Throughput.Proofs.Text.Lines
import Throughput.Toml.Reader

namespace Throughput.Toml

/-! ### What is written as a value -/

/-- A value ends at a line end, a comma or a bracket. -/
def Follows (rest : List Char) : Prop :=
  ∃ c more, rest = c :: more ∧ (c = '\n' ∨ c = ',' ∨ c = ']')

/-- A value begins with none of the characters that are passed over, and with no closing
    bracket. -/
def startsValue (c : Char) : Bool := !isBlank c && c != '\n' && c != '\r' && c != '#' && c != ']'

/-- The text is read as the value, where arrays and inline tables nest at most `depth`
    deep. -/
structure ReadsAs (depth : Nat) (text : List Char) (value : Toml) : Prop where
  head : ∃ c cs, text = c :: cs ∧ startsValue c = true
  value?_append : ∀ rest, Follows rest → value? depth (text ++ rest) = some (value, rest)

theorem skipLines_of_startsValue {c : Char} (h : startsValue c = true) (cs : List Char) :
    skipLines false (c :: cs) = c :: cs := by
  simp only [startsValue, Bool.and_eq_true, Bool.not_eq_true', bne_iff_ne] at h
  obtain ⟨⟨⟨⟨hblank, hnewline⟩, hreturn⟩, hmark⟩, -⟩ := h
  rw [skipLines, if_neg Bool.false_ne_true, if_neg hmark, if_neg (by simp [hblank])]
  · exact hnewline
  · exact fun _ heq _ => hreturn heq

/-! ### Words -/

/-- A character that numbers are written with. -/
def isNumeric (c : Char) : Bool := Decimal.isDigit c || c == '.' || c == '-'

theorem isWordChar_of_isNumeric {c : Char} (h : isNumeric c = true) : isWordChar c = true := by
  simp only [isNumeric, Bool.or_eq_true, beq_iff_eq, Decimal.isDigit_eq] at h
  rcases h with (h | rfl) | rfl
  · simp [isWordChar, isBare, Char.isAlphanum, h]
  · decide
  · decide

/-- What follows some of the digits in front is a digit or what ends them. -/
theorem head_of_fixedNumber? {run : List Char} (hrun : ∀ c ∈ run, Decimal.isDigit c = true)
    {c : Char} (hc : Decimal.isDigit c = false) {tail rest : List Char} {count n : Nat}
    (h : fixedNumber? count (run ++ c :: tail) = some (n, rest)) :
    ∃ d more, rest = d :: more ∧ (Decimal.isDigit d = true ∨ d = c) := by
  simp only [fixedNumber?] at h
  split_ifs at h with hdigits
  obtain ⟨-, rfl⟩ := Prod.mk.inj (Option.some_inj.1 h)
  have hcount : count ≤ run.length := by
    by_contra hlong
    obtain ⟨k, hk⟩ : ∃ k, count - run.length = k + 1 :=
      Nat.exists_eq_add_one_of_ne_zero (by omega)
    have hmem : c ∈ (run ++ c :: tail).take count := by
      rw [List.take_append, hk, List.take_succ_cons]
      exact List.mem_append_right _ List.mem_cons_self
    rw [List.all_eq_true.1 hdigits.2 c hmem] at hc
    cases hc
  rw [List.drop_append_of_le_length hcount]
  cases hdrop : run.drop count with
  | nil => exact ⟨c, tail, rfl, .inr rfl⟩
  | cons d more =>
    have hmem : d ∈ run := List.mem_of_mem_drop (hdrop ▸ List.mem_cons_self)
    exact ⟨d, more ++ c :: tail, rfl, .inl (hrun d hmem)⟩

/-- A number in digits that no dash and no colon follows is no date. -/
theorem date?_eq_none {run : List Char} (hrun : ∀ c ∈ run, Decimal.isDigit c = true) {c : Char}
    (hc : Decimal.isDigit c = false ∧ c ≠ '-' ∧ c ≠ ':') (tail : List Char) :
    date? (run ++ c :: tail) = none := by
  have hmark : ∀ {count n rest}, fixedNumber? count (run ++ c :: tail) = some (n, rest) →
      ∀ mark, Decimal.isDigit mark = false → c ≠ mark → Scan.exactly? mark rest = none := by
    intro count n rest h mark hdigit hne
    obtain ⟨d, more, rfl, hd⟩ := head_of_fixedNumber? hrun hc.1 h
    have hother : d ≠ mark := by
      rcases hd with hd | rfl
      · exact Decimal.ne_of_isDigit hd hdigit
      · exact hne
    rw [Scan.exactly?, if_neg hother]
  have hday : afterDay? (run ++ c :: tail) = none := by
    rw [afterDay?]
    cases h : fixedNumber? 4 (run ++ c :: tail) with
    | none => rfl
    | some found => simp [hmark h '-' (by decide) hc.2.1]
  have hclock : afterClock? plainHours (run ++ c :: tail) = none := by
    rw [afterClock?]
    cases h : fixedNumber? 2 (run ++ c :: tail) with
    | none => rfl
    | some found => simp [hmark h ':' (by decide) hc.2.2]
  rw [date?, afterMoment?, hday, hclock]
  rfl

theorem date?_minus (cs : List Char) : date? ('-' :: cs) = none := by
  have hfixed : ∀ count, fixedNumber? (count + 1) ('-' :: cs) = none := by
    intro count
    simp [fixedNumber?, Decimal.isDigit]
  have hday : afterDay? ('-' :: cs) = none := by
    rw [afterDay?, hfixed 3]
    rfl
  have hclock : afterClock? plainHours ('-' :: cs) = none := by
    rw [afterClock?, hfixed 1]
    rfl
  rw [date?, afterMoment?, hday, hclock]
  rfl

theorem Follows.ends {rest : List Char} (h : Follows rest) : Ends isWordChar rest := by
  obtain ⟨c, more, rfl, rfl | rfl | rfl⟩ := h <;> exact ends_cons.2 (by decide)

/-- A word that is a value and no date is read up to what follows it. -/
theorem scalar?_append {word rest : List Char} {value : Toml} (hne : word ≠ [])
    (hword : ∀ c ∈ word, isWordChar c = true) (hrest : Follows rest)
    (hdate : date? (word ++ rest) = none) (hvalue : word? word = some value) :
    value?.scalar? (word ++ rest) = some (value, rest) := by
  have hstring : string? (word ++ rest) = none := by
    obtain ⟨c, cs, rfl⟩ := List.exists_cons_of_ne_nil hne
    have hc : isWordChar c = true := hword c List.mem_cons_self
    have hquote : c ≠ '"' ∧ c ≠ '\'' := by
      constructor <;> rintro rfl <;> cases hc
    rw [List.cons_append]
    unfold string?
    split
    next heq => exact absurd (List.cons.inj heq).1 hquote.1
    next heq => exact absurd (List.cons.inj heq).1 hquote.1
    next heq => exact absurd (List.cons.inj heq).1 hquote.2
    next heq => exact absurd (List.cons.inj heq).1 hquote.2
    next => rfl
  rw [value?.scalar?, hstring, hdate, takeWhile_append_of_ends hword hrest.ends,
    dropWhile_append_of_ends hword hrest.ends, hvalue]
  rfl

theorem value?_eq_scalar? (depth : Nat) {c : Char} (hc : c ≠ '[' ∧ c ≠ '\x7b') (cs : List Char) :
    value? depth (c :: cs) = value?.scalar? (c :: cs) := by
  cases depth with
  | zero => rfl
  | succ depth =>
    rw [value?]
    · rintro rest heq
      exact hc.1 (List.cons.inj heq).1
    · rintro rest heq
      exact hc.2 (List.cons.inj heq).1

/-! ### Decimal numbers -/

theorem mem_of_mem_splitSign {c : Char} {cs : List Char} (h : c ∈ (Decimal.splitSign cs).2) :
    c ∈ cs := by
  unfold Decimal.splitSign at h
  split at h
  · exact List.mem_cons_of_mem _ h
  · exact List.mem_cons_of_mem _ h
  · exact h

/-- A word of digits, points and dashes is no name and no number of another system. -/
theorem word?_eq_decimal? {cs : List Char} (h : ∀ c ∈ cs, isNumeric c = true) :
    word? cs = decimal? cs := by
  have hnot : ∀ c, isNumeric c = false → c ∉ cs := by
    intro c hc hmem
    rw [h c hmem] at hc
    cases hc
  have hname : ∀ word : String, (∃ c ∈ word.toList, isNumeric c = false) →
      cs ≠ word.toList ∧ (Decimal.splitSign cs).2 ≠ word.toList := by
    rintro word ⟨c, hc, hnumeric⟩
    constructor
    · rintro rfl
      exact hnot c hnumeric hc
    · intro heq
      exact hnot c hnumeric (mem_of_mem_splitSign (heq ▸ hc))
  have htrue := (hname "true" ⟨'t', by decide, by decide⟩).1
  have hfalse := (hname "false" ⟨'f', by decide, by decide⟩).1
  have hinf := (hname "inf" ⟨'i', by decide, by decide⟩).2
  have hnan := (hname "nan" ⟨'n', by decide, by decide⟩).2
  unfold word?
  split
  next => exact absurd (by simp) (hnot 'x' (by decide))
  next => exact absurd (by simp) (hnot 'o' (by decide))
  next => exact absurd (by simp) (hnot 'b' (by decide))
  next => simp only [if_neg htrue, if_neg hfalse, if_neg hinf, if_neg hnan]

theorem isNumeric_of_isDigit {c : Char} (h : Decimal.isDigit c = true) : isNumeric c = true := by
  simp [isNumeric, h]

theorem run?_digits (run : DigitRun) : run? Decimal.isDigit run.digits = some run.digits := by
  have hpieces : Text.pieces (· == '_') run.digits = [run.digits] := by
    refine Text.pieces_eq_singleton _ fun c hc => ?_
    exact beq_eq_false_iff_ne.2 (Decimal.ne_of_isDigit (run.isDigit c hc) (by decide))
  have hne : run.digits.isEmpty = false := by simpa using run.ne_nil
  have hall : run.digits.all Decimal.isDigit = true := List.all_eq_true.2 run.isDigit
  simp [run?, hpieces, hne, hall]

theorem wholeRun?_digits {run : DigitRun} (h : run.IsPlain) :
    wholeRun? run.digits = some run.digits := by
  have hplain : ¬(run.digits.length ≠ 1 ∧ run.digits.head? = some '0') := by
    rintro ⟨hlength, hhead⟩
    exact hlength (by rw [h hhead]; rfl)
  rw [wholeRun?, run?_digits]
  simp only [Option.bind_eq_bind, Option.bind_some, if_neg hplain]

theorem splitBefore_append {p : Char → Bool} {cs rest : List Char} (hcs : ∀ c ∈ cs, p c = false)
    (hrest : ∀ c ∈ rest.head?, p c = true) : splitBefore p (cs ++ rest) = (cs, rest) := by
  have hends : Ends (fun c => !p c) rest := fun c hc => by simp [hrest c hc]
  have hfront : ∀ c ∈ cs, (!p c) = true := fun c hc => by simp [hcs c hc]
  rw [splitBefore, takeWhile_append_of_ends hfront hends, dropWhile_append_of_ends hfront hends]

theorem splitBefore_of_forall {p : Char → Bool} {cs : List Char} (hcs : ∀ c ∈ cs, p c = false) :
    splitBefore p cs = (cs, []) := by
  have h : splitBefore p (cs ++ []) = (cs, []) := splitBefore_append hcs (by simp)
  rwa [List.append_nil] at h

theorem isExponentMark_eq_false {c : Char} (h : isNumeric c = true) : isExponentMark c = false := by
  rw [Bool.eq_false_iff]
  intro hmark
  rcases (by simpa [isExponentMark] using hmark : c = 'e' ∨ c = 'E') with rfl | rfl <;> cases h

/-- The digits of a number on both sides of the point. -/
theorem isNumeric_of_mem_pointed {whole fraction : DigitRun} {c : Char}
    (h : c ∈ whole.digits ++ '.' :: fraction.digits) : isNumeric c = true := by
  rcases List.mem_append.1 h with h | h
  · exact isNumeric_of_isDigit (whole.isDigit c h)
  · rcases List.mem_cons.1 h with rfl | h
    · decide
    · exact isNumeric_of_isDigit (fraction.isDigit c h)

/-- **A finite number is read from its pointed form**, a zero with its sign. -/
theorem decimal?_pointed {x : Binary64} (hfinite : x.isFinite = true) {whole fraction : DigitRun}
    (h : x.IsPointed whole fraction) : decimal? x.pointed.toList = some (number x) := by
  obtain ⟨c, cs, hcs, hc⟩ := whole.exists_cons
  have hsign : Decimal.splitSign x.pointed.toList =
      (x.negative, whole.digits ++ '.' :: fraction.digits) := by
    rw [h.text_eq, hcs, List.cons_append]
    exact x.splitSign_signText
      ⟨Decimal.ne_of_isDigit hc (by decide), Decimal.ne_of_isDigit hc (by decide)⟩ _
  have hmark : splitBefore isExponentMark (whole.digits ++ '.' :: fraction.digits) =
      (whole.digits ++ '.' :: fraction.digits, []) :=
    splitBefore_of_forall fun c hc => isExponentMark_eq_false (isNumeric_of_mem_pointed hc)
  have hpoint : splitBefore (· == '.') (whole.digits ++ '.' :: fraction.digits) =
      (whole.digits, '.' :: fraction.digits) := by
    refine splitBefore_append (fun c hc => ?_) (by simp)
    exact beq_eq_false_iff_ne.2 (Decimal.ne_of_isDigit (whole.isDigit c hc) (by decide))
  have hfraction : fractionRun? ('.' :: fraction.digits) = some ('.' :: fraction.digits) := by
    rw [fractionRun?, run?_digits]
    rfl
  have hinfinite : x.magnitude.isInfinite = false := Binary64.isInfinite_eq_false hfinite
  simp only [decimal?, hsign, hmark, hpoint, wholeRun?_digits h.isPlain, hfraction, exponentRun?,
    Option.bind_eq_bind, Option.bind_some, List.append_nil, List.isEmpty_cons, Bool.false_and,
    Bool.false_eq_true, if_false, h.value_eq, hinfinite]
  cases hnegative : x.negative with
  | true => exact congrArg (fun y => some (number y)) (Binary64.eq_of_ordinal hnegative.symm rfl)
  | false => exact congrArg (fun y => some (number y)) (Binary64.eq_of_ordinal hnegative.symm rfl)

theorem toList_intText (n : Int) :
    (intText n).toList = (if n < 0 then ['-'] else []) ++ digitsOf n.natAbs := by
  rw [intText]
  split_ifs
  · simp only [String.toList_append, natText, String.toList_ofList]
    rfl
  · rw [natText, String.toList_ofList, List.nil_append]

theorem decimal?_intText (n : Int) : decimal? (intText n).toList = integerInRange? n := by
  have hdigits : ∀ c ∈ digitsOf n.natAbs, Decimal.isDigit c = true := fun _ =>
    Decimal.isDigit_digitsOf
  have hsign : Decimal.splitSign (intText n).toList = (decide (n < 0), digitsOf n.natAbs) := by
    rw [toList_intText]
    split_ifs with hn
    · rw [decide_eq_true hn]
      rfl
    · obtain ⟨c, cs, hcs, hc⟩ := (DigitRun.ofNat n.natAbs).exists_cons
      have hcs' : digitsOf n.natAbs = c :: cs := hcs
      rw [hcs', decide_eq_false hn]
      exact (Binary64.zero false).splitSign_signText
        ⟨Decimal.ne_of_isDigit hc (by decide), Decimal.ne_of_isDigit hc (by decide)⟩ cs
  have hmark : splitBefore isExponentMark (digitsOf n.natAbs) = (digitsOf n.natAbs, []) :=
    splitBefore_of_forall fun c hc => isExponentMark_eq_false (isNumeric_of_isDigit (hdigits c hc))
  have hpoint : splitBefore (· == '.') (digitsOf n.natAbs) = (digitsOf n.natAbs, []) :=
    splitBefore_of_forall fun c hc =>
      beq_eq_false_iff_ne.2 (Decimal.ne_of_isDigit (hdigits c hc) (by decide))
  have hwhole : wholeRun? (digitsOf n.natAbs) = some (digitsOf n.natAbs) :=
    wholeRun?_digits (DigitRun.isPlain_ofNat n.natAbs)
  simp only [decimal?, hsign, hmark, hpoint, hwhole, fractionRun?, exponentRun?,
    Option.bind_eq_bind, Option.bind_some, List.isEmpty_nil, Bool.and_self, if_true,
    Decimal.ofDigits_digitsOf]
  congr 1
  simp only [decide_eq_true_eq]
  split <;> omega

/-! ### Numbers as values -/

theorem startsValue_of_isNumeric {c : Char} (h : isNumeric c = true) : startsValue c = true := by
  have hne : ∀ d, isNumeric d = false → c ≠ d := by
    rintro d hd rfl
    rw [h] at hd
    cases hd
  simp [startsValue, isBlank, hne ' ' (by decide), hne '\t' (by decide), hne '\n' (by decide),
    hne '\r' (by decide), hne '#' (by decide), hne ']' (by decide)]

/-- A numeric word that is no date reads as its number. -/
theorem readsAs_of_isNumeric (depth : Nat) {word : List Char} {value : Toml} (hne : word ≠ [])
    (hword : ∀ c ∈ word, isNumeric c = true)
    (hdate : ∀ rest, Follows rest → date? (word ++ rest) = none)
    (hvalue : decimal? word = some value) : ReadsAs depth word value := by
  obtain ⟨c, cs, rfl⟩ := List.exists_cons_of_ne_nil hne
  have hc : isNumeric c = true := hword c List.mem_cons_self
  have hopen : c ≠ '[' ∧ c ≠ '\x7b' := by
    constructor <;> rintro rfl <;> cases hc
  refine ⟨⟨c, cs, rfl, startsValue_of_isNumeric hc⟩, fun rest hrest => ?_⟩
  rw [List.cons_append, value?_eq_scalar? depth hopen, ← List.cons_append]
  exact scalar?_append hne (fun d hd => isWordChar_of_isNumeric (hword d hd)) hrest
    (hdate rest hrest) ((word?_eq_decimal? hword).trans hvalue)

theorem readsAs_pointed (depth : Nat) {x : Binary64} (h : x.isFinite = true) :
    ReadsAs depth x.pointed.toList (number x) := by
  obtain ⟨whole, fraction, hpointed⟩ := Binary64.exists_isPointed h
  have hvalue := decimal?_pointed h hpointed
  rw [hpointed.text_eq] at hvalue ⊢
  have hsign : x.signText.toList = if x.negative then ['-'] else [] := by
    rw [Binary64.signText]
    split <;> rfl
  refine readsAs_of_isNumeric depth (by simp [whole.ne_nil]) (fun c hc => ?_) (fun rest _ => ?_)
    hvalue
  · rcases List.mem_append.1 hc with hc | hc
    · rw [hsign] at hc
      split at hc
      · obtain rfl := List.mem_singleton.1 hc
        decide
      · cases hc
    · exact isNumeric_of_mem_pointed hc
  · rw [hsign]
    split
    · exact date?_minus _
    · rw [List.nil_append, List.append_assoc, List.cons_append]
      exact date?_eq_none whole.isDigit (by decide) _

theorem readsAs_intText (depth : Nat) {n : Int} (h : Word.fitsSigned 64 n = true) :
    ReadsAs depth (intText n).toList (integer n) := by
  have hdigits : ∀ c ∈ digitsOf n.natAbs, Decimal.isDigit c = true := fun _ =>
    Decimal.isDigit_digitsOf
  have hvalue : decimal? (intText n).toList = some (integer n) := by
    rw [decimal?_intText, integerInRange?, if_pos h]
  rw [toList_intText] at hvalue ⊢
  refine readsAs_of_isNumeric depth (by simp [digitsOf_ne_nil]) (fun c hc => ?_)
    (fun rest hrest => ?_) hvalue
  · rcases List.mem_append.1 hc with hc | hc
    · split_ifs at hc
      · obtain rfl := List.mem_singleton.1 hc
        decide
      · cases hc
    · exact isNumeric_of_isDigit (hdigits c hc)
  · split_ifs
    · exact date?_minus _
    · obtain ⟨c, more, rfl, rfl | rfl | rfl⟩ := hrest <;>
        exact date?_eq_none hdigits (by decide) more

theorem readsAs_natText (depth : Nat) {n : Nat} (h : Word.fitsSigned 64 n = true) :
    ReadsAs depth (natText n).toList (integer n) := by
  have htext : natText n = intText n := by
    rw [intText, if_neg (by omega), Int.natAbs_natCast]
  rw [htext]
  exact readsAs_intText depth h

theorem readsAs_infinity (depth : Nat) :
    ReadsAs depth (Binary64.infinity false).pointed.toList (number (.infinity false)) := by
  refine ⟨⟨'i', ['n', 'f'], rfl, by decide⟩, fun rest hrest => ?_⟩
  have hdate : date? ([] ++ 'i' :: 'n' :: 'f' :: rest) = none :=
    date?_eq_none (List.forall_mem_nil _) (by decide) _
  have hword : value?.scalar? (['i', 'n', 'f'] ++ rest) = some (number (.infinity false), rest) :=
    scalar?_append (by decide) (List.all_eq_true.1 (by decide)) hrest hdate rfl
  exact (value?_eq_scalar? depth (by decide) _).trans hword

end Throughput.Toml
