/-
  Throughput/Proofs/Reading/LastText.lean
  =======================================
  **The line that a bandwidth is read from.**  It is the last line with text on it,
  unless one of the lines behind is white space beyond ASCII: such a line counts as the
  last one, though there is nothing to read on it (`ofLog_of_endsPlainly`,
  `ofLog_of_not_endsPlainly`).  Of its line an accepted log needs the last two words
  only, so nothing in front of them matters, nor do blank lines or carriage returns at
  line ends (`ofLog_of_retouched`).
-/
import Throughput.Proofs.Reading.Bandwidths
import Throughput.Proofs.Text.Decoding
import Throughput.Proofs.Text.Trimming

namespace Throughput

open Text

/-! ### Lines with text -/

namespace Text

/-- Whether bytes hold text: anything but white space. -/
def hasText (bytes : List UInt8) : Bool := (decodeUtf8 bytes).any (!isBlank ·)

theorem hasText_eq_false_iff {bytes : List UInt8} :
    hasText bytes = false ↔ AllBlank (decodeUtf8 bytes) := by
  simp [hasText, AllBlank]

theorem hasText_iff_words {bytes : List UInt8} :
    hasText bytes = true ↔ words (decodeUtf8 bytes) ≠ [] := by
  rw [Ne, words_eq_nil_iff, ← hasText_eq_false_iff, Bool.not_eq_false]

/-- White space of ASCII is white space. -/
theorem hasText_of_isBlankLine {line : List UInt8} (h : isBlankLine line = true) :
    hasText line = false := by
  rw [hasText_eq_false_iff]
  induction line with
  | nil =>
    intro c hc
    cases hc
  | cons b line ih =>
    rw [isBlankLine, List.all_cons, Bool.and_eq_true] at h
    have hb : b = 9 ∨ b = 10 ∨ b = 12 ∨ b = 13 ∨ b = 32 := by
      simpa [isAsciiBlank, or_assoc] using h.1
    have hascii : b < 0x80 ∧ isBlank (Char.ofNat b.toNat) = true := by
      rcases hb with rfl | rfl | rfl | rfl | rfl <;> decide
    rw [decodeUtf8_cons_ascii hascii.1]
    exact List.forall_mem_cons.2 ⟨hascii.2, ih h.2⟩

theorem isBlankLine_of_hasText {line : List UInt8} (h : hasText line = true) :
    isBlankLine line = false := by
  by_contra hblank
  rw [hasText_of_isBlankLine (by simpa using hblank)] at h
  cases h

/-- Whether all lines behind the last one with text are blank in ASCII too. -/
def endsPlainly (lines : List (List UInt8)) : Bool :=
  (lines.rtakeWhile (!hasText ·)).all isBlankLine

end Text

/-! ### The outcome of a line -/

namespace BandwidthRule

section Line

variable {rule : BandwidthRule} {cs : List Char}

/-- There are no words on a line of white space. -/
theorem ofLine_of_allBlank (rule : BandwidthRule) (h : AllBlank cs) :
    rule.ofLine cs = .error (.malformedBandwidth "" .noValueAndUnit) := by
  have hend : trimEnd cs = [] := by
    rw [← List.nil_append cs, trimEnd, dropEnding_append_of_pos h]
    rfl
  simp only [ofLine, words_eq_nil_iff.2 h, hend]
  rfl

/-- White space at the end of a line does not matter. -/
theorem ofLine_append {after : List Char} (h : AllBlank after) :
    rule.ofLine (cs ++ after) = rule.ofLine cs := by
  have hend : trimEnd (cs ++ after) = trimEnd cs := dropEnding_append_of_pos h cs
  simp only [ofLine, words_append_right h, hend]

theorem ofLine_concat_return (line : List UInt8) :
    rule.ofLine (decodeUtf8 (line ++ [carriageReturn])) = rule.ofLine (decodeUtf8 line) := by
  have hreturn : AllBlank (decodeUtf8 [carriageReturn]) := by
    rw [← hasText_eq_false_iff]
    exact hasText_of_isBlankLine (by decide)
  rw [decodeUtf8_append_ascii line [] (by decide), ofLine_append hreturn]

theorem ofLine_dropReturn (line : List UInt8) :
    rule.ofLine (decodeUtf8 (dropReturn line)) = rule.ofLine (decodeUtf8 line) := by
  rcases eq_dropReturn_or line with h | h
  · rw [← h]
  · rw [h, ofLine_concat_return, ← h]

/-- A line is accepted for its last two words. -/
theorem ofLine_eq_ok_iff {value : Binary64} : rule.ofLine cs = .ok value ↔
    ∃ before number name measured unit, words cs = before ++ [number, name] ∧
      BandwidthUnit.ofText? name = some unit ∧ Binary64.ofText? number = some measured ∧
      value = rule.normalize measured unit := by
  constructor
  · intro h
    unfold ofLine at h
    dsimp only at h
    split at h
    next name number before hwords =>
      split at h
      next => cases h
      next unit hunit =>
        split at h
        next => cases h
        next measured hmeasured =>
          cases h
          refine ⟨before.reverse, number, name, measured, unit, ?_, hunit, hmeasured, rfl⟩
          rw [← List.reverse_reverse (words cs), hwords]
          simp
    next => cases h
  · rintro ⟨before, number, name, measured, unit, hwords, hunit, hmeasured, rfl⟩
    simp only [ofLine, hwords, List.reverse_append, List.reverse_cons, List.reverse_nil,
      List.nil_append, List.cons_append, hunit, hmeasured]

/-- Words in front of the last two do not matter. -/
theorem ofLine_of_words_append {ds : List Char} {value : Binary64}
    {before before' last : List (List Char)} (hcs : words cs = before ++ last)
    (hds : words ds = before' ++ last) (hlast : 2 ≤ last.length)
    (h : rule.ofLine cs = .ok value) : rule.ofLine ds = .ok value := by
  obtain ⟨front, number, name, measured, unit, hwords, hunit, hmeasured, rfl⟩ :=
    ofLine_eq_ok_iff.1 h
  have hpair : [number, name] <:+ words cs := ⟨front, hwords.symm⟩
  have hall : last <:+ words cs := ⟨before, hcs.symm⟩
  obtain ⟨between, rfl⟩ := List.suffix_of_suffix_length_le hpair hall hlast
  apply ofLine_eq_ok_iff.2
  refine ⟨before' ++ between, number, name, measured, unit, ?_, hunit, hmeasured, rfl⟩
  rw [hds, List.append_assoc]

end Line

/-! ### The outcome of a log -/

/-- What the last line with text reports. -/
def ofLastText (rule : BandwidthRule) (lines : List (List UInt8)) : Except Failure Binary64 :=
  match (lines.filter hasText).getLast? with
  | some line => rule.ofLine (decodeUtf8 line)
  | none => .error (.malformedBandwidth "" .noSummaryLine)

theorem getLast?_filter_hasText (lines : List (List UInt8)) :
    (lines.filter hasText).getLast? = lines.reverse.find? hasText := by
  rw [List.getLast?_eq_head?_reverse, ← List.filter_reverse, List.head?_filter]

/-- Both searches for the last line go from the end; the one for a line that is not blank
    stops too early only at white space beyond ASCII. -/
theorem lastLine?_of_endsPlainly {lines : List (List UInt8)} (h : endsPlainly lines = true) :
    lastLine? lines = (lines.filter hasText).getLast? := by
  rw [lastLine?_eq_find?, getLast?_filter_hasText]
  rw [endsPlainly, List.rtakeWhile, List.all_reverse] at h
  generalize lines.reverse = backwards at h ⊢
  induction backwards with
  | nil => rfl
  | cons line rest ih =>
    cases htext : hasText line with
    | true => simp [htext, isBlankLine_of_hasText htext]
    | false =>
      simp only [List.takeWhile_cons, htext, Bool.not_false, if_true, List.all_cons,
        Bool.and_eq_true] at h
      simp [htext, h.1, ih h.2]

theorem exists_lastLine?_of_not_endsPlainly {lines : List (List UInt8)}
    (h : endsPlainly lines = false) :
    ∃ line, lastLine? lines = some line ∧ hasText line = false := by
  rw [lastLine?_eq_find?]
  rw [endsPlainly, List.rtakeWhile, List.all_reverse] at h
  generalize lines.reverse = backwards at h ⊢
  induction backwards with
  | nil => cases h
  | cons line rest ih =>
    cases htext : hasText line with
    | true => simp [htext] at h
    | false =>
      cases hblank : isBlankLine line with
      | false => exact ⟨line, by simp [hblank], htext⟩
      | true =>
        simp only [List.takeWhile_cons, htext, Bool.not_false, if_true, List.all_cons, hblank,
          Bool.true_and] at h
        simpa [hblank] using ih h

variable {rule : BandwidthRule} {bytes : List UInt8}

theorem ofLog_eq (rule : BandwidthRule) (bytes : List UInt8) :
    rule.ofLog ⟨bytes, none⟩ = match lastLine? (byteLines bytes) with
      | some line => rule.ofLine (decodeUtf8 line)
      | none => .error (.malformedBandwidth "" .noSummaryLine) := by
  rw [ofLog_of_failure_eq_none rule rfl]
  cases lastLine? (byteLines bytes) with
  | none => rfl
  | some line => exact ofLine_dropReturn line

theorem ofLog_of_endsPlainly (h : endsPlainly (byteLines bytes) = true) :
    rule.ofLog ⟨bytes, none⟩ = rule.ofLastText (byteLines bytes) := by
  rw [ofLog_eq, lastLine?_of_endsPlainly h]
  rfl

theorem ofLog_of_not_endsPlainly (h : endsPlainly (byteLines bytes) = false) :
    rule.ofLog ⟨bytes, none⟩ = .error (.malformedBandwidth "" .noValueAndUnit) := by
  obtain ⟨line, hlast, htext⟩ := exists_lastLine?_of_not_endsPlainly h
  rw [ofLog_eq, hlast]
  exact ofLine_of_allBlank rule (hasText_eq_false_iff.1 htext)

theorem ofLine_ne_noSummaryLine (rule : BandwidthRule) (cs : List Char) (text : String) :
    rule.ofLine cs ≠ .error (.malformedBandwidth text .noSummaryLine) := by
  unfold ofLine
  dsimp only
  split
  · split
    · simp
    · split <;> simp
  · simp

/-- That there is no summary line is said of logs without text only. -/
theorem ofLastText_eq_noSummaryLine_iff {lines : List (List UInt8)} :
    rule.ofLastText lines = .error (.malformedBandwidth "" .noSummaryLine) ↔
      ∀ line ∈ lines, hasText line = false := by
  have hnone : (lines.filter hasText).getLast? = none ↔ ∀ line ∈ lines, hasText line = false := by
    rw [List.getLast?_eq_none_iff, List.filter_eq_nil_iff]
    simp
  rw [← hnone, ofLastText]
  cases (lines.filter hasText).getLast? with
  | none => simp
  | some line => simpa using ofLine_ne_noSummaryLine rule (decodeUtf8 line) ""

/-! ### Accepted logs -/

/-- The last line of bytes that is not blank. -/
def lastLineOf? (bytes : List UInt8) : Option (List UInt8) := lastLine? (bytes.splitOn newline)

theorem lastLine?_append (xs ys : List (List UInt8)) :
    lastLine? (xs ++ ys) = (lastLine? ys).or (lastLine? xs) := by
  rw [lastLine?, List.filter_append, List.getLast?_append]
  rfl

theorem lastLine?_byteLines (bytes : List UInt8) :
    lastLine? (byteLines bytes) = lastLineOf? bytes := by
  obtain ⟨tail, htail, hsplit⟩ := splitOn_eq_byteLines_append bytes
  have hnone : lastLine? tail = none := by
    rcases htail with rfl | rfl <;> rfl
  rw [lastLineOf?, hsplit, lastLine?_append, hnone, Option.none_or]

theorem lastLineOf?_append_newline (front rest : List UInt8) :
    lastLineOf? (front ++ newline :: rest) = (lastLineOf? rest).or (lastLineOf? front) := by
  rw [lastLineOf?, List.splitOn_append_cons_self, lastLine?_append]
  rfl

theorem ofLog_eq_ok_iff {value : Binary64} : rule.ofLog ⟨bytes, none⟩ = .ok value ↔
    ∃ line, lastLineOf? bytes = some line ∧ rule.ofLine (decodeUtf8 line) = .ok value := by
  rw [ofLog_eq, lastLine?_byteLines]
  cases lastLineOf? bytes <;> simp

/-! ### Changes that do not matter -/

/-- Bytes that end in white space, or no bytes: what follows starts a word. -/
def SetsOff (front : List UInt8) : Prop := ∀ c ∈ (decodeUtf8 front).getLast?, isBlank c = true

theorem setsOff_of_getLast? {front : List UInt8} {c : Char}
    (hlast : (decodeUtf8 front).getLast? = some c) (hc : isBlank c = true) : SetsOff front := by
  intro c' hc'
  rw [hlast] at hc'
  cases hc'
  exact hc

/-- Two logs of which the second one says nothing else about its bandwidth: lines of white
    space are put in, white space beyond ASCII only in front of text; carriage returns are
    put in front of the newlines; or what stands in front of the last words of a line is
    replaced. -/
inductive Retouched : List UInt8 → List UInt8 → Prop where
  | inserted {front blank rest : List UInt8} (hblank : hasText blank = false)
      (hplain : isBlankLine blank = true ∨ hasText rest = true) :
      Retouched (front ++ newline :: rest) (front ++ newline :: (blank ++ newline :: rest))
  | prepended {blank log : List UInt8} (hblank : hasText blank = false) :
      Retouched log (blank ++ newline :: log)
  | appended {log blank : List UInt8} (hblank : isBlankLine blank = true) :
      Retouched log (log ++ newline :: blank)
  | returns (log : List UInt8) : Retouched log (withReturns log)
  | rewritten {front front' tail rest : List UInt8} (hfront : SetsOff front)
      (hfront' : SetsOff front') (htail : newline ∉ tail)
      (hwords : 2 ≤ (words (decodeUtf8 tail)).length) (hrest : ∀ b ∈ rest.head?, b = newline) :
      Retouched (front ++ tail ++ rest) (front' ++ tail ++ rest)

theorem lastLineOf?_eq_none_iff : lastLineOf? bytes = none ↔ isBlankLine bytes = true := by
  rw [lastLineOf?, lastLine?_eq_none_iff, splitOn_newline]
  induction bytes with
  | nil => simp [isBlankLine]
  | cons b bytes ih =>
    have hcons : isBlankLine (b :: bytes) = (isAsciiBlank b && isBlankLine bytes) := rfl
    rw [pieces_cons, hcons, Bool.and_eq_true, ← ih]
    by_cases hb : b = newline
    · rw [hb]
      simp [isBlankLine, isAsciiBlank, newline]
    · have hneg : (b == newline) = false := by simpa using hb
      obtain ⟨piece, rest, hpieces⟩ :=
        List.exists_cons_of_ne_nil (pieces_ne_nil (· == newline) bytes)
      rw [hneg, hpieces]
      simp [prepend, isBlankLine, and_assoc]

/-- Where there is text, some line is not blank. -/
theorem exists_lastLineOf?_of_hasText (h : hasText bytes = true) :
    ∃ line, lastLineOf? bytes = some line := by
  rw [← Option.isSome_iff_exists, Option.isSome_iff_ne_none, Ne, lastLineOf?_eq_none_iff,
    isBlankLine_of_hasText h]
  decide

theorem exists_last_newline (bytes : List UInt8) : newline ∉ bytes ∨
    ∃ init last, bytes = init ++ newline :: last ∧ newline ∉ last := by
  induction bytes using List.reverseRecOn with
  | nil => exact .inl List.not_mem_nil
  | append_singleton bytes b ih =>
    by_cases hb : b = newline
    · exact .inr ⟨bytes, [], by rw [hb], List.not_mem_nil⟩
    · rcases ih with hnone | ⟨init, last, rfl, hlast⟩
      · exact .inl (by simp [hnone, Ne.symm hb])
      · exact .inr ⟨init, last ++ [b], by simp, by simp [hlast, Ne.symm hb]⟩

/-- What is put behind bytes continues the last of their lines, which ends as they do. -/
theorem exists_last_piece (front : List UInt8) : ∃ init last,
    (∀ tail, newline ∉ tail → (front ++ tail).splitOn newline = init ++ [last ++ tail]) ∧
      (SetsOff front → SetsOff last) := by
  rcases exists_last_newline front with hnone | ⟨init, last, rfl, hlast⟩
  · refine ⟨[], front, ?_, id⟩
    intro tail htail
    rw [splitOn_newline, pieces_of_not_mem (by simp [hnone, htail])]
    rfl
  · refine ⟨init.splitOn newline, last, ?_, ?_⟩
    · intro tail htail
      rw [List.append_assoc, List.cons_append, List.splitOn_append_cons_self,
        splitOn_newline (last ++ tail), pieces_of_not_mem (by simp [hlast, htail])]
    · intro hfront c hc
      apply hfront c
      rw [decodeUtf8_append_ascii init last (by decide), decodeUtf8_cons_ascii (by decide)]
      exact List.mem_getLast?_append_of_mem_getLast? (List.mem_getLast?_cons hc)

/-- Set off from what stands in front, the words of a text are the last ones of its line. -/
theorem words_decodeUtf8_append {front : List UInt8} (hfront : SetsOff front)
    (tail : List UInt8) :
    words (decodeUtf8 (front ++ tail)) = words (decodeUtf8 front) ++ words (decodeUtf8 tail) := by
  have hended : ∀ c ∈ (decodeUtf8 front).getLast?, c ≠ replacement := by
    rintro c hc rfl
    exact absurd (hfront _ hc) (by decide)
  rw [decodeUtf8_append hended, words_append hfront]

theorem exists_lastLineOf?_append {front tail : List UInt8} (hfront : SetsOff front)
    (htail : newline ∉ tail) (htext : words (decodeUtf8 tail) ≠ []) :
    ∃ line before, lastLineOf? (front ++ tail) = some line ∧
      words (decodeUtf8 line) = before ++ words (decodeUtf8 tail) := by
  obtain ⟨init, last, hsplit, hlast⟩ := exists_last_piece front
  have hwords := words_decodeUtf8_append (hlast hfront) tail
  have hline : hasText (last ++ tail) = true := by
    rw [hasText_iff_words, hwords]
    exact List.append_ne_nil_of_right_ne_nil _ htext
  refine ⟨last ++ tail, _, ?_, hwords⟩
  rw [lastLineOf?, hsplit tail htail, lastLine?_append]
  simp [lastLine?_eq_find?, isBlankLine_of_hasText hline]

theorem lastLine?_cons (line : List UInt8) (lines : List (List UInt8)) :
    lastLine? (line :: lines) =
      (lastLine? lines).or (if isBlankLine line then none else some line) := by
  rw [← List.singleton_append, lastLine?_append]
  congr 1
  cases h : isBlankLine line <;> simp [lastLine?_eq_find?, h]

/-- A line may get a carriage return at its end. -/
def ReturnAdded (line line' : List UInt8) : Prop := line' = line ∨ line' = line ++ [carriageReturn]

/-- Carriage returns do not make another line the last one. -/
theorem lastLine?_of_returnAdded {lines lines' : List (List UInt8)}
    (h : List.Forall₂ ReturnAdded lines lines') :
    Option.Rel ReturnAdded (lastLine? lines) (lastLine? lines') := by
  induction h with
  | nil => exact .none
  | @cons line line' lines lines' hline _ ih =>
    have hblank : isBlankLine line' = isBlankLine line := by
      rcases hline with rfl | rfl
      · rfl
      · simp [isBlankLine, isAsciiBlank, carriageReturn]
    rw [lastLine?_cons, lastLine?_cons, hblank]
    generalize lastLine? lines = last at ih ⊢
    generalize lastLine? lines' = last' at ih ⊢
    cases ih with
    | some hlast => exact .some hlast
    | none =>
      rw [Option.none_or, Option.none_or]
      split
      · exact .none
      · exact .some hline

theorem ofLog_withReturns {log : List UInt8} {value : Binary64}
    (hvalue : rule.ofLog ⟨log, none⟩ = .ok value) :
    rule.ofLog ⟨withReturns log, none⟩ = .ok value := by
  rw [ofLog_eq_ok_iff] at hvalue ⊢
  obtain ⟨line, hlast, hline⟩ := hvalue
  have hlines : Option.Rel ReturnAdded (lastLineOf? log) (lastLineOf? (withReturns log)) :=
    lastLine?_of_returnAdded (splitOn_withReturns log)
  rw [hlast] at hlines
  generalize lastLineOf? (withReturns log) = last' at hlines ⊢
  cases hlines with
  | some hadded =>
    refine ⟨_, rfl, ?_⟩
    rcases hadded with rfl | rfl
    · exact hline
    · rw [ofLine_concat_return, hline]

/-- What stands in front of the last two words of a line is not read. -/
theorem ofLog_of_front {front front' tail rest : List UInt8} (hfront : SetsOff front)
    (hfront' : SetsOff front') (htail : newline ∉ tail)
    (hwords : 2 ≤ (words (decodeUtf8 tail)).length) (hrest : ∀ b ∈ rest.head?, b = newline)
    {value : Binary64} (hvalue : rule.ofLog ⟨front ++ tail ++ rest, none⟩ = .ok value) :
    rule.ofLog ⟨front' ++ tail ++ rest, none⟩ = .ok value := by
  rw [ofLog_eq_ok_iff] at hvalue ⊢
  obtain ⟨line, hlast, hline⟩ := hvalue
  have htext : words (decodeUtf8 tail) ≠ [] := by
    rintro hnil
    rw [hnil] at hwords
    exact absurd hwords (by decide)
  obtain ⟨old, before, hold, holdWords⟩ := exists_lastLineOf?_append hfront htail htext
  obtain ⟨new, before', hnew, hnewWords⟩ := exists_lastLineOf?_append hfront' htail htext
  cases rest with
  | nil =>
    rw [List.append_nil, hold] at hlast
    cases hlast
    refine ⟨new, by rw [List.append_nil, hnew], ?_⟩
    exact ofLine_of_words_append holdWords hnewWords hwords hline
  | cons b rest =>
    obtain rfl : b = newline := hrest b rfl
    rw [lastLineOf?_append_newline, hold] at hlast
    rw [lastLineOf?_append_newline, hnew]
    cases hlater : lastLineOf? rest with
    | some later =>
      rw [hlater] at hlast
      exact ⟨line, hlast, hline⟩
    | none =>
      rw [hlater, Option.none_or] at hlast
      cases hlast
      refine ⟨new, rfl, ?_⟩
      exact ofLine_of_words_append holdWords hnewWords hwords hline

/-- **An accepted log stays accepted, with its bandwidth.** -/
theorem ofLog_of_retouched {log log' : List UInt8} (h : Retouched log log') {value : Binary64}
    (hvalue : rule.ofLog ⟨log, none⟩ = .ok value) : rule.ofLog ⟨log', none⟩ = .ok value := by
  -- a line of white space that is put in leaves the same line the last one
  have hsame : ∀ {bytes : List UInt8}, (∀ line, lastLineOf? log = some line →
      lastLineOf? bytes = some line) → rule.ofLog ⟨bytes, none⟩ = .ok value := by
    intro bytes hbytes
    obtain ⟨line, hlast, hline⟩ := ofLog_eq_ok_iff.1 hvalue
    exact ofLog_eq_ok_iff.2 ⟨line, hbytes line hlast, hline⟩
  cases h with
  | @inserted front blank rest hblank hplain =>
    apply hsame
    intro line hlast
    rw [lastLineOf?_append_newline] at hlast
    rw [lastLineOf?_append_newline, lastLineOf?_append_newline]
    rcases hplain with hascii | htext
    · rw [lastLineOf?_eq_none_iff.2 hascii, Option.or_none, hlast]
    · obtain ⟨last, hrest⟩ := exists_lastLineOf?_of_hasText htext
      rw [hrest, Option.some_or] at hlast ⊢
      rw [Option.some_or, hlast]
  | @prepended blank _ hblank =>
    apply hsame
    intro line hlast
    rw [lastLineOf?_append_newline, hlast, Option.some_or]
  | @appended _ blank hblank =>
    apply hsame
    intro line hlast
    rw [lastLineOf?_append_newline, lastLineOf?_eq_none_iff.2 hblank, Option.none_or, hlast]
  | returns => exact ofLog_withReturns hvalue
  | rewritten hfront hfront' htail hwords hrest =>
    exact ofLog_of_front hfront hfront' htail hwords hrest hvalue

/-- **A bandwidth is read from the last line with text, if the log ends plainly.**  Then a
    log without text is the only one that has no summary line.  White space beyond ASCII
    on a line behind is taken for a summary line without value and unit.  An accepted log
    keeps its bandwidth when blank lines, line ends or what stands in front of the last
    two words of its line are changed. -/
theorem ofLog_reads_last_text (rule : BandwidthRule) (log : Source) (hlog : log.failure = none) :
    (endsPlainly (byteLines log.bytes) = true →
      rule.ofLog log = rule.ofLastText (byteLines log.bytes) ∧
      (rule.ofLog log = .error (.malformedBandwidth "" .noSummaryLine) ↔
        ∀ line ∈ byteLines log.bytes, hasText line = false)) ∧
    (endsPlainly (byteLines log.bytes) = false →
      rule.ofLog log = .error (.malformedBandwidth "" .noValueAndUnit)) ∧
    ∀ value, rule.ofLog log = .ok value → ∀ bytes, Retouched log.bytes bytes →
      rule.ofLog ⟨bytes, none⟩ = .ok value := by
  obtain ⟨bytes, failure⟩ := log
  cases hlog
  refine ⟨?_, ?_, ?_⟩
  · intro hplain
    rw [ofLog_of_endsPlainly hplain]
    exact ⟨rfl, ofLastText_eq_noSummaryLine_iff⟩
  · intro hplain
    exact ofLog_of_not_endsPlainly hplain
  · intro value hvalue bytes' hretouched
    exact ofLog_of_retouched hretouched hvalue

/-- A log whose summary line gets other words in front, set off by a no-break space; then
    the same log with a no-break space on a line of its own at the end. -/
theorem ofLog_reads_last_text_rewritten :
    let rest : List UInt8 := Text.encodeUtf8 "\n \t\r\n".toList
    let tail : List UInt8 := Text.encodeUtf8 "7 \u2003Gbits/sec".toList
    let front : List UInt8 := Text.encodeUtf8 "setup\n[  3]  0.0-10.0 sec ".toList
    let front' : List UInt8 := [0xe9] ++ Text.encodeUtf8 " 5 Mbits/sec\u00a0".toList
    let spaced : List UInt8 := front ++ tail ++ rest ++ Text.encodeUtf8 "\u00a0".toList
    standard.ofLog ⟨front ++ tail ++ rest, none⟩ =
      standard.ofLastText (byteLines (front ++ tail ++ rest)) ∧
    standard.ofLog ⟨front' ++ tail ++ rest, none⟩ = .ok (.ofNat 7168) ∧
    standard.ofLog ⟨spaced, none⟩ = .error (.malformedBandwidth "" .noValueAndUnit) := by
  intro rest tail front front' spaced
  obtain ⟨hplain, -, hkeeps⟩ := ofLog_reads_last_text standard ⟨front ++ tail ++ rest, none⟩ rfl
  obtain ⟨-, hspaced, -⟩ := ofLog_reads_last_text standard ⟨spaced, none⟩ rfl
  have hfront : (decodeUtf8 front).getLast? = some ' ' := by decide +kernel
  have hfront' : (decodeUtf8 front').getLast? = some '\u00a0' := by decide +kernel
  have hretouched : Retouched (front ++ tail ++ rest) (front' ++ tail ++ rest) := by
    apply Retouched.rewritten (setsOff_of_getLast? hfront (by decide))
      (setsOff_of_getLast? hfront' (by decide))
    · decide +kernel
    · decide +kernel
    · decide +kernel
  refine ⟨(hplain (by decide +kernel)).1, ?_, hspaced (by decide +kernel)⟩
  exact hkeeps _ (by decide +kernel) _ hretouched

/-- A vertical tab behind the summary line hides it. -/
theorem ofLog_hidden_by_vertical_tab :
    let bytes : List UInt8 := Text.encodeUtf8 "5 Mbits/sec\n\x0b\n".toList
    (byteLines bytes).filter hasText = [Text.encodeUtf8 "5 Mbits/sec".toList] ∧
    standard.ofLine "5 Mbits/sec".toList = .ok (.ofNat 5) ∧
    standard.ofLog ⟨bytes, none⟩ = .error (.malformedBandwidth "" .noValueAndUnit) := by
  decide +kernel

end BandwidthRule

end Throughput
