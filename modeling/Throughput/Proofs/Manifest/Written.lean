/-
  Throughput/Proofs/Manifest/Written.lean
  =======================================
  **Entries as they are written.**  An entry written with any white space around its
  parts names the run it was written for, at the hour of the day it was written for
  (`Manifest.run_ofLog_entry`).  The identifier may hold single dashes and slashes: the
  parts are told apart by the first double dash (`piecesAt_separator`), and each part
  has its own reading lemma.
-/
import Mathlib.Algebra.Ring.Nat
import Mathlib.Data.List.Chain
import Throughput.Proofs.Calendar.Days
import Throughput.Proofs.Manifest.Listing
import Throughput.Proofs.Number.Digits
import Throughput.Proofs.Text.Encoding

namespace Throughput

/-! ### Cutting at the separator -/

namespace Text

variable {xs ys : List Char}

/-- No two dashes stand next to each other. -/
def NoDoubleDash (xs : List Char) : Prop := xs.IsChain fun a b => ¬(a = '-' ∧ b = '-')

theorem noDoubleDash_of_not_infix (h : ¬['-', '-'] <:+: xs) : NoDoubleDash xs := by
  refine List.isChain_iff_forall_rel_of_append_cons_cons.2 ?_
  rintro a b before after heq ⟨rfl, rfl⟩
  exact h ⟨before, after, by simp [heq]⟩

theorem noDoubleDash_of_not_mem (h : '-' ∉ xs) : NoDoubleDash xs := by
  refine List.isChain_iff_forall_rel_of_append_cons_cons.2 ?_
  rintro a b before after rfl ⟨rfl, -⟩
  exact h (by simp)

theorem NoDoubleDash.append (h : NoDoubleDash xs) (hys : '-' ∉ ys) : NoDoubleDash (xs ++ ys) := by
  refine List.IsChain.append h (noDoubleDash_of_not_mem hys) ?_
  rintro a - b hb ⟨-, rfl⟩
  exact hys (List.mem_of_mem_head? hb)

/-- No separator starts inside such a text, not even at its end in front of another
    separator. -/
theorem not_separator_isPrefixOf {c : Char} (h : NoDoubleDash (c :: xs)) {rest : List Char}
    (hrest : rest.head? ≠ some '-') : Run.separator.isPrefixOf (c :: (xs ++ rest)) = false := by
  rw [Bool.eq_false_iff, ne_eq, List.isPrefixOf_iff_prefix, Run.separator, List.cons_prefix_cons]
  rintro ⟨-, more, hmore⟩
  match xs, h, hmore with
  | [], _, hmore =>
    refine hrest ?_
    rw [← List.nil_append rest, ← hmore]
    rfl
  | [x], _, hmore =>
    have hrest' : ['-', ' '] ++ more = rest := (List.cons.inj hmore).2
    refine hrest ?_
    rw [← hrest']
    rfl
  | x :: y :: _, h, hmore =>
    obtain ⟨hx, htail⟩ := List.cons.inj hmore
    obtain ⟨hy, -⟩ := List.cons.inj htail
    exact (List.isChain_cons_cons.1 h.tail).1 ⟨hx.symm, hy.symm⟩

theorem piecesAt_separator (h : NoDoubleDash xs) (ys : List Char) :
    piecesAt Run.separator (xs ++ (Run.separator ++ ys)) = xs :: piecesAt Run.separator ys := by
  induction xs with
  | nil =>
    rw [List.nil_append, Run.separator, List.cons_append, piecesAt, if_pos (by simp)]
    rfl
  | cons c xs ih =>
    have hhead : (Run.separator ++ ys).head? ≠ some '-' := by simp [Run.separator]
    rw [List.cons_append, piecesAt, not_separator_isPrefixOf h hhead, ih h.tail]
    rfl

theorem piecesAt_of_noDoubleDash (h : NoDoubleDash xs) : piecesAt Run.separator xs = [xs] := by
  induction xs with
  | nil => rw [piecesAt]
  | cons c xs ih =>
    have hnot : Run.separator.isPrefixOf (c :: (xs ++ [])) = false :=
      not_separator_isPrefixOf h (by simp)
    rw [List.append_nil] at hnot
    rw [piecesAt, hnot, ih h.tail]
    rfl

end Text

/-! ### Numbers -/

theorem isTrimmed_digitsOf (n : Nat) : Text.IsTrimmed (digitsOf n) :=
  Text.isTrimmed_of_forall fun _ hc => Decimal.isBlank_of_isDigit (Decimal.isDigit_digitsOf hc)

theorem Decimal.wholeNumber?_digitsOf (n : Nat) : wholeNumber? (digitsOf n) = some n := by
  have hall : (digitsOf n).all isDigit = true :=
    List.all_eq_true.2 fun _ => isDigit_digitsOf
  simp [wholeNumber?, hall, digitsOf_ne_nil]

theorem Decimal.unsignedWhole?_digitsOf (n : Nat) : unsignedWhole? (digitsOf n) = some n := by
  unfold unsignedWhole?
  split
  next ds hplus =>
    have hmem : '+' ∈ digitsOf n := by simp [hplus]
    exact absurd (isDigit_digitsOf hmem) (by decide)
  next => exact wholeNumber?_digitsOf n

namespace Run

theorem word?_trim_digitsOf {n : Nat} (h : n < 2 ^ 32) :
    word? (Text.trim (digitsOf n)) = some n := by
  have hfits : Word.fits 32 n = true := decide_eq_true h
  rw [(isTrimmed_digitsOf n).trim_eq, word?, Decimal.unsignedWhole?_digitsOf, Option.filter_some,
    if_pos hfits]

theorem dateComponent_digitsOf {n : Nat} (h : n < 2 ^ 32) (date : List Char) :
    dateComponent date (digitsOf n) = .ok n := by
  rw [dateComponent, word?_trim_digitsOf h]

/-! ### Dates -/

/-- The two ways of writing a date. -/
inductive DateForm where
  | full
  | short
  deriving DecidableEq

namespace DateForm

def text : DateForm → Date → List Char
  | full, d => digitsOf d.year.toNat ++ '/' :: (digitsOf d.month ++ '/' :: digitsOf d.day)
  | short, d => digitsOf d.month ++ '/' :: digitsOf d.day

/-- The dates that a form can write: the years from zero on, or the year that is meant
    without one. -/
def Suits (defaultYear : Int) (d : Date) : DateForm → Prop
  | full => 0 ≤ d.year
  | short => d.year = defaultYear

end DateForm

/-- A date is made of digits and slashes. -/
theorem DateForm.mem_text {form : DateForm} {d : Date} {c : Char} (h : c ∈ form.text d) :
    Decimal.isDigit c = true ∨ c = '/' := by
  have hdigits : ∀ n, c ∈ digitsOf n → Decimal.isDigit c = true ∨ c = '/' := fun n hc =>
    .inl (Decimal.isDigit_digitsOf hc)
  cases form <;> simp only [text, List.mem_append, List.mem_cons] at h
  · rcases h with h | rfl | h | rfl | h
    exacts [hdigits _ h, .inr rfl, hdigits _ h, .inr rfl, hdigits _ h]
  · rcases h with h | rfl | h
    exacts [hdigits _ h, .inr rfl, hdigits _ h]

theorem ne_slash_of_mem_digitsOf (n : Nat) : ∀ c ∈ digitsOf n, (c == '/') = false := fun _ hc =>
  beq_eq_false_iff_ne.2 (Decimal.ne_of_isDigit (Decimal.isDigit_digitsOf hc) (by decide))

theorem pieces_digitsOf (n : Nat) : Text.pieces (· == '/') (digitsOf n) = [digitsOf n] :=
  Text.pieces_eq_singleton _ (ne_slash_of_mem_digitsOf n)

theorem pieces_digitsOf_append (n : Nat) (rest : List Char) :
    Text.pieces (· == '/') (digitsOf n ++ '/' :: rest) =
      digitsOf n :: Text.pieces (· == '/') rest :=
  Text.pieces_append_cons _ (ne_slash_of_mem_digitsOf n) rfl rest

theorem signedYear_of_lt {n : Nat} (h : n < 2 ^ 31) : signedYear n = n := by
  rw [signedYear, Word.wrapSigned, Word.count]
  exact Int.bmod_eq_of_le (by simp) (by simp; omega)

/-- **A date is read from either of its written forms.** -/
theorem date_text {defaultYear : Int} {d : Date} {form : DateForm} (h : form.Suits defaultYear d) :
    date defaultYear (form.text d) = .ok d := by
  have hfields : dateFields defaultYear (form.text d) = .ok (d.year, d.month, d.day) := by
    have hbounds := d.bounds
    have hyear : d.year ≤ lastYear := d.isDate.2.1
    rw [lastYear] at hyear
    cases form with
    | short =>
      rw [DateForm.text, dateFields, pieces_digitsOf_append, pieces_digitsOf]
      simp only [dateComponent_digitsOf (show d.month < 2 ^ 32 by omega),
        dateComponent_digitsOf (show d.day < 2 ^ 32 by omega)]
      exact congrArg Except.ok (Prod.ext h.symm rfl)
    | full =>
      have hzero : 0 ≤ d.year := h
      rw [DateForm.text, dateFields, pieces_digitsOf_append, pieces_digitsOf_append,
        pieces_digitsOf]
      simp only [dateComponent_digitsOf (show d.year.toNat < 2 ^ 32 by omega),
        dateComponent_digitsOf (show d.month < 2 ^ 32 by omega),
        dateComponent_digitsOf (show d.day < 2 ^ 32 by omega)]
      refine congrArg Except.ok (Prod.ext ?_ rfl)
      rw [signedYear_of_lt (by omega)]
      exact Int.toNat_of_nonneg hzero
  have hdate : Date.ofFields? d.year d.month d.day = some d := Date.ofFields?_of_isDate d.isDate
  simp only [date, hfields, bind, Except.bind, hdate]
  rfl

/-! ### Hours -/

/-- An hour of the day on a clock of twelve hours. -/
def clockHour (hour : Nat) : Nat := if hour % 12 = 0 then 12 else hour % 12

/-- `am` or `pm`, in any letter case. -/
def IsHalf (hour : Nat) (half : List Char) : Prop :=
  half.map lowerAscii = if hour < 12 then ['a', 'm'] else ['p', 'm']

theorem halfOfDay?_append {hour : Nat} {half : List Char} (hhalf : IsHalf hour half) (n : Nat) :
    halfOfDay? (digitsOf n ++ half) = some (digitsOf n, if hour < 12 then 0 else 12) := by
  have hdigits : (digitsOf n).map lowerAscii = digitsOf n := by
    rw [List.map_congr_left fun c hc => lowerAscii_of_isDigit (Decimal.isDigit_digitsOf hc),
      List.map_id']
  rw [IsHalf] at hhalf
  rw [halfOfDay?, List.map_append, hdigits, hhalf]
  by_cases h : hour < 12 <;> simp [h]

/-- **An hour of the day is read from a clock of twelve hours**, noon and midnight as
    the twelfth hour. -/
theorem hour_text {h : Nat} (hlt : h < 24) {half : List Char} (hhalf : IsHalf h half) :
    hour (digitsOf (clockHour h) ++ half) = .ok h := by
  have hclock : 1 ≤ clockHour h ∧ clockHour h ≤ 12 := by
    unfold clockHour
    split <;> omega
  have hhour : clockHour h % 12 + (if h < 12 then 0 else 12) = h := by
    unfold clockHour
    split <;> split <;> omega
  rw [hour, halfOfDay?_append hhalf]
  simp only [word?_trim_digitsOf (show clockHour h < 2 ^ 32 by omega), if_pos hclock, hhour]

theorem lowerAscii_mem_of_mem_half {hour : Nat} {half : List Char} (hhalf : IsHalf hour half)
    {c : Char} (hc : c ∈ half) : lowerAscii c ∈ ['a', 'm', 'p'] := by
  have hmem : lowerAscii c ∈ half.map lowerAscii := List.mem_map_of_mem hc
  rw [show half.map lowerAscii = _ from hhalf] at hmem
  split at hmem <;>
    · rw [List.mem_pair] at hmem
      rcases hmem with h | h <;> simp [h]

theorem isBlank_of_mem_half {hour : Nat} {half : List Char} (hhalf : IsHalf hour half) :
    ∀ c ∈ half, Text.isBlank c = false := by
  intro c hc
  have hmem := lowerAscii_mem_of_mem_half hhalf hc
  rw [Bool.eq_false_iff]
  intro hblank
  -- a blank has no other case, and none of the letters is one
  have hself : lowerAscii c = c := by
    refine lowerAscii_eq_self ?_
    simp only [Text.isBlank, Bool.or_eq_true, Bool.and_eq_true, decide_eq_true_eq,
      beq_iff_eq] at hblank
    omega
  rw [hself] at hmem
  simp only [List.mem_cons, List.not_mem_nil, or_false] at hmem
  rcases hmem with rfl | rfl | rfl <;> exact absurd hblank (by decide)

/-! ### Entries -/

/-- An entry as it is written: what it says, in which of the ways there are, and the
    white space around its parts. -/
structure Written (defaultYear : Int) where
  id : List Char
  date : Date
  form : DateForm
  hour : Nat
  half : List Char
  blanks : Fin 6 → List Char
  id_ne_nil : id ≠ []
  id_isTrimmed : Text.IsTrimmed id
  id_dashes : ¬['-', '-'] <:+: id
  id_newline : '\n' ∉ id
  suits : form.Suits defaultYear date
  hour_lt : hour < 24
  isHalf : IsHalf hour half
  allBlank : ∀ i, Text.AllBlank (blanks i)
  blanks_newline : ∀ i, '\n' ∉ blanks i

namespace Written

variable {defaultYear : Int} (e : Written defaultYear)

def time : List Char := digitsOf (clockHour e.hour) ++ e.half

/-- What stands behind the marker. -/
def text : List Char :=
  e.blanks 0 ++ e.id ++ e.blanks 1 ++ separator ++
    e.blanks 2 ++ e.form.text e.date ++ e.blanks 3 ++ separator ++ e.blanks 4 ++ e.time ++
      e.blanks 5

/-- The run that is written. -/
def run : Run where
  id := String.ofList e.id
  start := ⟨e.date, e.hour, 0, 0, 0, e.hour_lt, Nat.succ_pos _, Nat.succ_pos _, Nat.succ_pos _⟩

theorem half_ne_nil : e.half ≠ [] := by
  intro hnil
  have hhalf := e.isHalf
  rw [IsHalf, hnil, List.map_nil] at hhalf
  split at hhalf <;> cases hhalf

theorem isBlank_of_mem_time : ∀ c ∈ e.time, Text.isBlank c = false := by
  intro c hc
  rcases List.mem_append.1 hc with hc | hc
  · exact Decimal.isBlank_of_isDigit (Decimal.isDigit_digitsOf hc)
  · exact isBlank_of_mem_half e.isHalf c hc

theorem isTrimmed_time : Text.IsTrimmed e.time := Text.isTrimmed_of_forall e.isBlank_of_mem_time

theorem time_ne_nil : e.time ≠ [] := by simp [time, e.half_ne_nil]

theorem dash_not_mem_time : '-' ∉ e.time := by
  intro hc
  rcases List.mem_append.1 hc with hc | hc
  · exact absurd (Decimal.isDigit_digitsOf hc) (by decide)
  · exact absurd (lowerAscii_mem_of_mem_half e.isHalf hc) (by decide)

/-- A date has no white space and no dashes in it. -/
theorem isTrimmed_date : Text.IsTrimmed (e.form.text e.date) := by
  refine Text.isTrimmed_of_forall fun c hc => ?_
  rcases DateForm.mem_text hc with hdigit | rfl
  · exact Decimal.isBlank_of_isDigit hdigit
  · decide

theorem dash_not_mem_date : '-' ∉ e.form.text e.date := by
  intro hc
  rcases DateForm.mem_text hc with hdigit | hslash
  · exact absurd hdigit (by decide)
  · exact absurd hslash (by decide)

theorem dash_not_mem_blanks (i : Fin 6) : '-' ∉ e.blanks i := fun hc =>
  absurd (e.allBlank i '-' hc) (by decide)

/-- The parts of an entry, each with the white space around it. -/
theorem piecesAt_trim_text :
    Text.piecesAt separator (Text.trim e.text) =
      [e.id ++ e.blanks 1, e.blanks 2 ++ e.form.text e.date ++ e.blanks 3,
        e.blanks 4 ++ e.time] := by
  let body := e.id ++ e.blanks 1 ++ (separator ++
    (e.blanks 2 ++ e.form.text e.date ++ e.blanks 3 ++ (separator ++ (e.blanks 4 ++ e.time))))
  have htext : e.text = e.blanks 0 ++ body ++ e.blanks 5 := by
    simp only [text, body, List.append_assoc]
  have hbody : Text.IsTrimmed body := by
    constructor
    · intro c hc
      refine e.id_isTrimmed.head c ?_
      simpa [body, List.head?_append, e.id_ne_nil] using hc
    · intro c hc
      refine e.isTrimmed_time.last c ?_
      simpa [body, List.getLast?_append, e.time_ne_nil] using hc
  have hid : Text.NoDoubleDash (e.id ++ e.blanks 1) :=
    (Text.noDoubleDash_of_not_infix e.id_dashes).append (e.dash_not_mem_blanks 1)
  have hdate : '-' ∉ e.blanks 2 ++ e.form.text e.date ++ e.blanks 3 := by
    simp [e.dash_not_mem_blanks, e.dash_not_mem_date]
  have htime : '-' ∉ e.blanks 4 ++ e.time := by
    simp [e.dash_not_mem_blanks, e.dash_not_mem_time]
  rw [htext, Text.trim_around (e.allBlank 0) hbody (e.allBlank 5), Text.piecesAt_separator hid,
    Text.piecesAt_separator (Text.noDoubleDash_of_not_mem hdate),
    Text.piecesAt_of_noDoubleDash (Text.noDoubleDash_of_not_mem htime)]

/-- **What is written behind the marker is read as the run.** -/
theorem ofEntry_text : ofEntry defaultYear e.text = .ok e.run := by
  have hid : Text.trim (e.id ++ e.blanks 1) = e.id := by
    rw [Text.trim_append_right (e.allBlank 1), e.id_isTrimmed.trim_eq]
  have hdate : Text.trim (e.blanks 2 ++ e.form.text e.date ++ e.blanks 3) = e.form.text e.date :=
    Text.trim_around (e.allBlank 2) e.isTrimmed_date (e.allBlank 3)
  have htime : Text.trim (e.blanks 4 ++ e.time) = e.time := by
    rw [Text.trim_append_left (e.allBlank 4), e.isTrimmed_time.trim_eq]
  have hhour : Run.hour e.time = .ok e.hour := hour_text e.hour_lt e.isHalf
  have hempty : e.id.isEmpty = false := by simpa using e.id_ne_nil
  have hstart : Stamp.at? e.date e.hour 0 0 0 = some e.run.start :=
    dif_pos ⟨e.hour_lt, by decide, by decide, by decide⟩
  rw [ofEntry, piecesAt_trim_text]
  simp only [List.map_cons, List.map_nil, hid, hdate, htime, hempty, Bool.false_eq_true, if_false,
    date_text e.suits, hhour, bind, Except.bind, hstart]
  rfl

/-! ### Lines -/

/-- No entry that is written is the known one, which ends in another letter. -/
theorem trim_line_ne_knownEntry (marker : Char) : Text.trim (marker :: e.text) ≠ knownEntry := by
  obtain ⟨c, hc⟩ := Option.isSome_iff_exists.1 (List.getLast?_isSome.2 e.half_ne_nil)
  have hmem : c ∈ e.half := List.mem_of_mem_getLast? hc
  have hlast : (Text.trim (marker :: e.text)).getLast? = some c := by
    have htext : marker :: e.text = marker :: (e.blanks 0 ++ e.id ++ e.blanks 1 ++ separator ++
        e.blanks 2 ++ e.form.text e.date ++ e.blanks 3 ++ separator ++ e.blanks 4 ++ e.time) ++
        e.blanks 5 := rfl
    rw [htext, Text.trim_append_right (e.allBlank 5)]
    refine Text.getLast?_trim ?_ (isBlank_of_mem_half e.isHalf c hmem)
    rw [← List.cons_append, List.getLast?_append, time, List.getLast?_append, hc]
    rfl
  intro hknown
  rw [hknown] at hlast
  have hletter : c = 'e' := (Option.some.inj hlast).symm
  subst hletter
  exact absurd (lowerAscii_mem_of_mem_half e.isHalf hmem) (by decide)

theorem ofLine?_line (rule : ManifestRule) (e : Written rule.defaultYear) :
    ofLine? rule (rule.marker :: e.text) = some (.ok e.run) := by
  rw [ofLine?, if_neg (e.trim_line_ne_knownEntry rule.marker)]
  simp only [if_true, e.ofEntry_text]

theorem newline_not_mem_text : '\n' ∉ e.text := by
  have hdate : '\n' ∉ e.form.text e.date := fun hc => by
    rcases DateForm.mem_text hc with hdigit | hslash
    · exact absurd hdigit (by decide)
    · exact absurd hslash (by decide)
  have htime : '\n' ∉ e.time := fun hc => absurd (e.isBlank_of_mem_time _ hc) (by decide)
  have hseparator : '\n' ∉ separator := by decide
  simp [text, e.blanks_newline, e.id_newline, hdate, htime, hseparator]

theorem newline_not_mem_line {marker : Char} (hmarker : marker ≠ '\n') :
    Text.newline ∉ Text.encodeUtf8 (marker :: e.text) := by
  intro hmem
  have hc : '\n' ∈ marker :: e.text :=
    Text.mem_of_mem_encodeUtf8 (a := Text.newline) (by decide) hmem
  rcases List.mem_cons.1 hc with hc | hc
  · exact hmarker hc.symm
  · exact e.newline_not_mem_text hc

/-- The bytes of the line are read as the run.  A carriage return at the end of the
    white space is taken for a part of the line end. -/
theorem ofLine?_lineText (rule : ManifestRule) (e : Written rule.defaultYear) :
    ofLine? rule (Manifest.lineText (Text.encodeUtf8 (rule.marker :: e.text))) =
      some (.ok e.run) := by
  rw [← ofLine?_line rule e]
  generalize hbytes : Text.encodeUtf8 (rule.marker :: e.text) = bytes
  have htext : Text.decodeUtf8 bytes = rule.marker :: e.text := by
    rw [← hbytes, Text.decodeUtf8_encodeUtf8]
  rcases Text.eq_dropReturn_or bytes with h | h
  · rw [Manifest.lineText, ← h, htext]
  · have hreturn : Manifest.lineText bytes ++ ['\r'] = rule.marker :: e.text := by
      rw [← htext, Manifest.lineText]
      nth_rewrite 2 [h]
      exact (Text.decodeUtf8_append_ascii _ [] (a := Text.carriageReturn) (by decide)).symm
    have hne : Manifest.lineText bytes ≠ [] := by
      intro hnil
      rw [hnil, List.nil_append] at hreturn
      have hlength := congrArg List.length hreturn
      simp [text, separator] at hlength
    rw [← hreturn, ofLine?_concat_return (.inl hne)]

end Written

end Run

namespace Manifest

/-- The lines of a manifest, with an entry that is written between those before it and
    those after it. -/
theorem readings_entry {rule : ManifestRule} (hmarker : rule.marker ≠ '\n')
    (e : Run.Written rule.defaultYear) {before after : List UInt8}
    (hheader : rule.headerLines ≤ (Text.byteLines before).length)
    (hbefore : ∀ b ∈ before.getLast?, b = Text.newline)
    (hafter : ∀ b ∈ after.head?, b = Text.newline) :
    readings rule (before ++ (Text.encodeUtf8 (rule.marker :: e.text) ++ after)) =
      readings rule before ++ .ok e.run :: readings { rule with headerLines := 0 } after := by
  have hlines := Text.byteLines_line_append (e.newline_not_mem_line hmarker)
    (Text.encodeUtf8_cons_ne_nil _ _) hafter
  -- the newline of the entry stands at the start of what follows, as an empty line
  have hrest : (Text.byteLines after).tail.filterMap (fun line =>
      Run.ofLine? rule (lineText line)) = readings { rule with headerLines := 0 } after := by
    rw [readings_eq]
    cases after with
    | nil => rfl
    | cons b rest =>
      obtain rfl : b = Text.newline := hafter b rfl
      rw [Text.byteLines_newline_cons, List.drop_zero, List.filterMap_cons, ofLine?_lineText_nil]
      rfl
  rw [readings_eq, Text.byteLines_append hbefore, hlines, List.drop_append_of_le_length hheader,
    List.filterMap_append, ← readings_eq, List.filterMap_cons, e.ofLine?_lineText rule, hrest]

/-- **An entry that is written resolves to its date and hour.**  It stands behind a
    manifest that is accepted, whatever this lists, and behind the header; what follows
    is accepted and does not list the run again. -/
theorem run_ofLog_entry {rule : ManifestRule} (hmarker : rule.marker ≠ '\n')
    (e : Run.Written rule.defaultYear) {before after : List UInt8} {m later : Manifest}
    (hheader : rule.headerLines ≤ (Text.byteLines before).length)
    (hbefore : ∀ b ∈ before.getLast?, b = Text.newline)
    (hafter : ∀ b ∈ after.head?, b = Text.newline)
    (hm : ofLog rule ⟨before, none⟩ = .ok m)
    (hlater : ofLog { rule with headerLines := 0 } ⟨after, none⟩ = .ok later)
    (hid : later.run (String.ofList e.id) = .error (.missingTimestamp (String.ofList e.id))) :
    ∃ m', ofLog rule ⟨before ++ (Text.encodeUtf8 (rule.marker :: e.text) ++ after), none⟩ =
        .ok m' ∧
      m'.run (String.ofList e.id) = .ok e.run := by
  obtain ⟨runs, hruns, -⟩ := ofLog_eq_ok_iff.1 hm
  obtain ⟨laterRuns, hlaterRuns, rfl⟩ := ofLog_eq_ok_iff.1 hlater
  have hreadings : readings rule
      (before ++ (Text.encodeUtf8 (rule.marker :: e.text) ++ after)) =
        (runs ++ e.run :: laterRuns).map .ok := by
    rw [readings_entry hmarker e hheader hbefore hafter, hruns, hlaterRuns, List.map_append,
      List.map_cons]
  have hlisting := isListing_foldl_insert (runs ++ e.run :: laterRuns)
  exact ⟨_, ofLog_eq_ok_iff.2 ⟨_, hreadings, rfl⟩,
    hlisting.last runs e.run laterRuns rfl (ne_of_run_foldl_insert hid)⟩

/-- Midnight of a leap day without its year, for a run with dashes and slashes in its
    name.  It stands behind a header and an earlier entry for the run, its line ends in a
    tab and a carriage return, and an entry for another run follows. -/
theorem run_ofLog_entry_midnight :
    let rule : ManifestRule := ⟨'>', 1, 2016⟩
    let e : Run.Written rule.defaultYear := {
      id := "-a/1 - b-".toList
      date := ⟨2016, 2, 29, by decide⟩
      form := .short
      hour := 0
      half := ['a', 'M']
      blanks := fun i => if i = 5 then ['\t', '\r'] else if i = 1 then [] else [' ', '\u3000']
      id_ne_nil := by decide
      id_isTrimmed := Text.isTrimmed_of_ends rfl rfl (by decide) (by decide)
      id_dashes := by decide
      id_newline := by decide
      suits := rfl
      hour_lt := by decide
      isHalf := rfl
      allBlank := fun i => List.all_eq_true.1 (by revert i; decide)
      blanks_newline := by decide }
    let before := Text.encodeUtf8 "header\n> -a/1 - b- -- 3/1 -- 1pm\n".toList
    let after := Text.encodeUtf8 "\n> b -- 2015/12/31 -- 12PM".toList
    ∃ m, ofLog rule ⟨before ++ (Text.encodeUtf8 (rule.marker :: e.text) ++ after), none⟩ = .ok m ∧
      m.run "-a/1 - b-" = .ok e.run := by
  intro rule e before after
  have hlast : before.getLast? = some Text.newline := by decide
  have hfirst : after.head? = some Text.newline := by decide
  have hbefore : ofLog rule ⟨before, none⟩ =
      .ok ⟨[⟨"-a/1 - b-", Date.atClock ⟨2016, 3, 1, by decide⟩ 13 0 0⟩]⟩ := by
    decide +kernel
  have hafter : ofLog { rule with headerLines := 0 } ⟨after, none⟩ =
      .ok ⟨[⟨"b", Date.atClock ⟨2015, 12, 31, by decide⟩ 12 0 0⟩]⟩ := by
    decide +kernel
  refine run_ofLog_entry (by decide) e (by decide +kernel) (fun b hb => ?_) (fun b hb => ?_)
    hbefore hafter (by decide +kernel)
  · exact Option.some_inj.1 (hb.symm.trans hlast)
  · exact Option.some_inj.1 (hb.symm.trans hfirst)

end Manifest

end Throughput
