/-
  Throughput/Proofs/Manifest/Dates.lean
  =====================================
  **Dates as entries write them.**  An entry with a full date that is accepted names the
  month, the day and the hour that it writes, and the year that it writes unless this is
  one of the numbers just below `2^32` (`Manifest.run_ofLog_fullDate`).  Those stand for
  years before zero (`date_ofLog_other_year`); any other year without a date is refused.

  Reading is inverted part by part: what was read off a text tells what the text is.
-/
import Mathlib.Algebra.Ring.Int.Defs
import Throughput.Proofs.Failure.Outcomes
import Throughput.Proofs.Manifest.Written

namespace Throughput

/-! ### Numbers -/

/-- The text writes the number in decimal, with an optional plus sign in front and white
    space around it. -/
def Decimal.Writes (n : Nat) (text : List Char) : Prop :=
  ∃ run : DigitRun, Nat.ofDigitChars 10 run.digits 0 = n ∧
    (Text.trim text = run.digits ∨ Text.trim text = '+' :: run.digits)

theorem Decimal.wholeNumber?_eq_some_iff {cs : List Char} {n : Nat} :
    wholeNumber? cs = some n ↔
      ∃ run : DigitRun, Nat.ofDigitChars 10 run.digits 0 = n ∧ cs = run.digits := by
  rw [wholeNumber?]
  constructor
  · intro h
    split at h
    next hrun =>
      simp only [Bool.and_eq_true, Bool.not_eq_true', List.isEmpty_eq_false_iff,
        List.all_eq_true] at hrun
      rw [ofDigits_eq_ofDigitChars] at h
      exact ⟨⟨cs, hrun.1, hrun.2⟩, Option.some_inj.1 h, rfl⟩
    next => cases h
  · rintro ⟨run, rfl, rfl⟩
    have hall : run.digits.all isDigit = true := List.all_eq_true.2 run.isDigit
    simp [hall, run.ne_nil, ofDigits_eq_ofDigitChars]

theorem Decimal.unsignedWhole?_eq_some_iff {cs : List Char} {n : Nat} :
    unsignedWhole? cs = some n ↔ ∃ run : DigitRun, Nat.ofDigitChars 10 run.digits 0 = n ∧
      (cs = run.digits ∨ cs = '+' :: run.digits) := by
  unfold unsignedWhole?
  split
  next ds =>
    rw [wholeNumber?_eq_some_iff]
    refine exists_congr fun run => and_congr_right fun _ => ?_
    constructor
    · rintro rfl
      exact .inr rfl
    · rintro (hdigits | hdigits)
      · have hdigit := run.isDigit '+' (by simp [← hdigits])
        exact absurd hdigit (by decide)
      · exact (List.cons.inj hdigits).2
  next hplus =>
    rw [wholeNumber?_eq_some_iff]
    refine exists_congr fun run => and_congr_right fun _ => ?_
    constructor
    · exact .inl
    · rintro (hdigits | hdigits)
      · exact hdigits
      · exact absurd hdigits (hplus run.digits)

theorem Decimal.Writes.unique {n m : Nat} {text : List Char} (hn : Writes n text)
    (hm : Writes m text) : n = m :=
  Option.some_inj.1 ((unsignedWhole?_eq_some_iff.2 hn).symm.trans (unsignedWhole?_eq_some_iff.2 hm))

namespace Run

theorem word?_trim_eq_some_iff {text : List Char} {n : Nat} :
    word? (Text.trim text) = some n ↔ Decimal.Writes n text ∧ n < 2 ^ 32 := by
  have hfits : Word.fits 32 n = true ↔ n < 2 ^ 32 := decide_eq_true_iff
  rw [word?, Option.filter_eq_some_iff, Decimal.unsignedWhole?_eq_some_iff, hfits,
    Decimal.Writes]

theorem dateComponent_eq_ok_iff {date component : List Char} {n : Nat} :
    dateComponent date component = .ok n ↔ Decimal.Writes n component ∧ n < 2 ^ 32 := by
  rw [← word?_trim_eq_some_iff, dateComponent]
  cases word? (Text.trim component) with
  | none => exact iff_of_false (fun h => by cases h) (fun h => by cases h)
  | some k => simp

/-! ### Dates -/

/-- The year that an accepted date has for a number written in its place: the number
    itself, or for the last numbers below `2^32` what is missing to it. -/
def IsYearOf (written : Nat) (year : Int) : Prop :=
  year = written ∨ 2 ^ 32 - 262143 ≤ written ∧ written < 2 ^ 32 ∧ year = (written : Int) - 2 ^ 32

theorem signedYear_of_le {n : Nat} (h : 2 ^ 31 ≤ n) (hlt : n < 2 ^ 32) :
    signedYear n = (n : Int) - 2 ^ 32 := by
  rw [signedYear, Word.wrapSigned, show Word.count 32 = 2 ^ 32 from rfl, Int.bmod_def]
  omega

/-- Only the years in use are left of the numbers that a word can hold. -/
theorem isYearOf_signedYear {n : Nat} (h : n < 2 ^ 32) (hfirst : firstYear ≤ signedYear n) :
    IsYearOf n (signedYear n) := by
  rcases Nat.lt_or_ge n (2 ^ 31) with hlow | hhigh
  · exact .inl (signedYear_of_lt hlow)
  · rw [firstYear, signedYear_of_le hhigh h] at hfirst
    rw [signedYear_of_le hhigh h]
    exact .inr ⟨by omega, h, rfl⟩

/-- The fields of a full date are the numbers written, the year as a signed word. -/
theorem dateFields_eq_ok {defaultYear : Int} {text year month day : List Char}
    {fields : Int × Nat × Nat} (hpieces : Text.pieces (· == '/') text = [year, month, day])
    (h : dateFields defaultYear text = .ok fields) :
    ∃ written, Decimal.Writes written year ∧ written < 2 ^ 32 ∧ fields.1 = signedYear written ∧
      Decimal.Writes fields.2.1 month ∧ Decimal.Writes fields.2.2 day := by
  rw [dateFields, hpieces] at h
  obtain ⟨y, hyear, h⟩ := exceptBind_eq_ok.1 h
  obtain ⟨m, hmonth, h⟩ := exceptBind_eq_ok.1 h
  obtain ⟨d, hday, h⟩ := exceptBind_eq_ok.1 h
  rw [dateComponent_eq_ok_iff] at hyear hmonth hday
  generalize hsigned : signedYear y = year' at h
  cases h
  exact ⟨y, hyear.1, hyear.2, hsigned.symm, hmonth.1, hday.1⟩

/-- **A full date that is read has the month and the day written, and a year of the
    number written.** -/
theorem date_eq_ok {defaultYear : Int} {text year month day : List Char} {d : Date}
    (hpieces : Text.pieces (· == '/') text = [year, month, day])
    (h : date defaultYear text = .ok d) :
    (∃ written, Decimal.Writes written year ∧ IsYearOf written d.year) ∧
      Decimal.Writes d.month month ∧ Decimal.Writes d.day day := by
  obtain ⟨⟨y, m, k⟩, hfields, h⟩ := exceptBind_eq_ok.1 h
  obtain ⟨written, hyear, hlt, hsigned, hmonth, hday⟩ := dateFields_eq_ok hpieces hfields
  have hfound : Date.ofFields? y m k = some d := by
    simp only at h
    split at h
    next found hfound =>
      obtain rfl := Except.ok.inj h
      exact hfound
    next => cases h
  obtain ⟨rfl, rfl, rfl⟩ := Date.eq_of_ofFields? hfound
  have hfirst : firstYear ≤ signedYear written := hsigned ▸ d.isDate.1
  refine ⟨⟨written, hyear, ?_⟩, hmonth, hday⟩
  rw [show d.year = signedYear written from hsigned]
  exact isYearOf_signedYear hlt hfirst

/-! ### Hours -/

/-- In small letters the text is what a clock of twelve hours shows at an hour of the
    day, and the half of the day. -/
def ReadsClock (hour : Nat) (text : List Char) : Prop :=
  hour < 24 ∧ ∃ digits, text.map lowerAscii =
      digits ++ (if hour < 12 then ['a', 'm'] else ['p', 'm']) ∧
    Decimal.Writes (clockHour hour) digits

theorem halfOfDay?_eq_some {text digits : List Char} {offset : Nat}
    (h : halfOfDay? text = some (digits, offset)) :
    offset = 0 ∧ text.map lowerAscii = digits ++ ['a', 'm'] ∨
      offset = 12 ∧ text.map lowerAscii = digits ++ ['p', 'm'] := by
  unfold halfOfDay? at h
  split at h
  next ds hds =>
    obtain ⟨rfl, rfl⟩ := Prod.mk.inj (Option.some_inj.1 h)
    exact .inl ⟨rfl, List.reverse_inj.1 (by simpa using hds)⟩
  next ds hds =>
    obtain ⟨rfl, rfl⟩ := Prod.mk.inj (Option.some_inj.1 h)
    exact .inr ⟨rfl, List.reverse_inj.1 (by simpa using hds)⟩
  next => cases h

/-- Twelve is the first hour of either half of the day. -/
theorem clockHour_mod {n : Nat} (hn : 1 ≤ n ∧ n ≤ 12) :
    clockHour (n % 12) = n ∧ clockHour (n % 12 + 12) = n := by
  unfold clockHour
  constructor <;> split <;> omega

theorem hour_eq_ok {text : List Char} {h : Nat} (hread : hour text = .ok h) :
    ReadsClock h text := by
  unfold hour at hread
  split at hread
  next => cases hread
  next digits offset hhalf =>
    split at hread
    next => cases hread
    next n hword =>
      obtain ⟨hwrites, -⟩ := word?_trim_eq_some_iff.1 hword
      split at hread
      next hn =>
        obtain rfl := Except.ok.inj hread
        obtain ⟨hmorning, hevening⟩ := clockHour_mod hn
        have hmod : n % 12 < 12 := Nat.mod_lt n (by decide)
        rcases halfOfDay?_eq_some hhalf with ⟨rfl, htext⟩ | ⟨rfl, htext⟩
        · exact ⟨by omega, digits, by rw [htext, if_pos (by omega)],
            by rwa [Nat.add_zero, hmorning]⟩
        · exact ⟨by omega, digits, by rw [htext, if_neg (by omega)], by rwa [hevening]⟩
      next => cases hread

/-! ### Entries -/

/-- A line that is an entry with a full date, by its parts. -/
structure FullEntry (rule : ManifestRule) (line : List Char) where
  id : List Char
  year : List Char
  month : List Char
  day : List Char
  time : List Char
  date : List Char
  head?_eq : line.head? = some rule.marker
  ne_known : Text.trim line ≠ knownEntry
  parts_eq : (Text.piecesAt separator (Text.trim line.tail)).map Text.trim = [id, date, time]
  date_eq : Text.pieces (· == '/') date = [year, month, day]

/-- A run is what an entry with a full date says, but perhaps for the year. -/
structure FullEntry.Says {rule : ManifestRule} {line : List Char} (e : FullEntry rule line)
    (run : Run) : Prop where
  id_eq : run.id = String.ofList e.id
  year : ∃ written, Decimal.Writes written e.year ∧ IsYearOf written run.start.date.year
  month : Decimal.Writes run.start.date.month e.month
  day : Decimal.Writes run.start.date.day e.day
  hour : ReadsClock run.start.hour e.time
  sharp : run.start.minute = 0 ∧ run.start.second = 0 ∧ run.start.nano = 0

/-- **An entry that is accepted says what is written in it**, but perhaps for the year. -/
theorem FullEntry.says_of_ofKept {rule : ManifestRule} {line : List Char}
    (e : FullEntry rule line) {run : Run} (h : ofKept rule line = .ok run) : e.Says run := by
  rw [ofKept, if_neg e.ne_known, ofEntry, e.parts_eq] at h
  simp only at h
  split at h
  next => cases h
  next =>
    obtain ⟨d, hdate, h⟩ := exceptBind_eq_ok.1 h
    obtain ⟨hours, hhour, h⟩ := exceptBind_eq_ok.1 h
    obtain ⟨hyear, hmonth, hday⟩ := date_eq_ok e.date_eq hdate
    split at h
    next start hstart =>
      simp only [pure, Except.pure, Except.ok.injEq] at h
      unfold Stamp.at? at hstart
      split at hstart
      next =>
        obtain rfl := Option.some_inj.1 hstart
        rw [← h]
        exact ⟨rfl, hyear, hmonth, hday, hour_eq_ok hhour, rfl, rfl, rfl⟩
      next => cases hstart
    next => cases h

end Run

namespace Manifest

variable {rule : ManifestRule}

/-- **Full dates in a manifest.**  If the manifest is accepted, the entry names the month,
    the day and the hour that it writes, and the year that it writes or, for the numbers
    just below `2^32`, a year before zero; that is what the run resolves to unless a later
    entry is for it.  Any other number that is no year of a date is refused under the number
    of its line, if no entry before is. -/
theorem run_ofLog_fullDate {bytes : List UInt8} {before after : List (List Char × Nat)}
    {line : List Char} {number : Nat}
    (hentries : entries rule bytes = before ++ (line, number) :: after)
    (e : Run.FullEntry rule line) :
    (∀ m, ofLog rule ⟨bytes, none⟩ = .ok m → ∃ run, e.Says run ∧
      ((∀ later ∈ after, ∀ other, Run.ofKept rule later.1 = .ok other → other.id ≠ run.id) →
        m.run run.id = .ok run)) ∧
    ∀ written, Decimal.Writes written e.year → lastYear < written →
      written < 2 ^ 32 - 262143 ∨ 2 ^ 32 ≤ written →
      (∀ entry ∈ before, ∃ run, Run.ofKept rule entry.1 = .ok run) →
      ∃ fault, ofLog rule ⟨bytes, none⟩ = .error (.malformedManifestLine number fault) := by
  constructor
  · intro m hm
    rw [ofLog_eq_foldlM, hentries, foldlM_take_eq_ok_iff] at hm
    obtain ⟨runs, hruns, rfl⟩ := hm
    rw [List.map_append, List.map_cons] at hruns
    obtain ⟨earlier, rest, rfl, -, hrest⟩ := List.map_eq_append_iff.1 hruns.symm
    obtain ⟨run, later, rfl, hrun, hlater⟩ := List.map_eq_cons_iff.1 hrest
    refine ⟨run, e.says_of_ofKept hrun.symm, fun hlast => ?_⟩
    refine (isListing_foldl_insert _).last earlier run later rfl fun other hother => ?_
    have hmem : .ok other ∈ after.map fun line => Run.ofKept rule line.1 :=
      hlater ▸ List.mem_map_of_mem hother
    obtain ⟨entry, hentry, hreads⟩ := List.mem_map.1 hmem
    exact hlast entry hentry other hreads
  · intro written hwritten hlate hword hbefore
    cases hline : Run.ofKept rule line with
    | error fault =>
      rw [ofLog_eq_foldlM, hentries]
      exact ⟨fault, foldlM_take_error empty hbefore hline⟩
    | ok run =>
      -- no date has that year
      obtain ⟨other, hother, hyear⟩ := (e.says_of_ofKept hline).year
      obtain rfl := hwritten.unique hother
      have hlast : run.start.date.year ≤ lastYear := run.start.date.isDate.2.1
      rcases hyear with hyear | ⟨hlow, hhigh, -⟩ <;> omega

/-- Noon of a leap day with zeros and blanks around its numbers, for a run that an
    earlier entry is for as well; and the same run in the first year that is refused. -/
theorem run_ofLog_fullDate_leap_day :
    let rule : ManifestRule := ⟨'>', 1, 2015⟩
    let bytes (line : String) := Text.encodeUtf8
      ("> 1\n> 7 -- 3/1 -- 1pm\n" ++ line ++ "\n> 70 -- 3/1 -- 1pm").toList
    let e : Run.FullEntry rule "> 7 -- +2016 / 02/29 -- 012 Pm".toList := {
      id := ['7']
      year := "+2016 ".toList
      month := " 02".toList
      day := "29".toList
      time := "012 Pm".toList
      date := "+2016 / 02/29".toList
      head?_eq := rfl
      ne_known := by decide
      parts_eq := by decide +kernel
      date_eq := by decide }
    (∃ m run, ofLog rule ⟨bytes "> 7 -- +2016 / 02/29 -- 012 Pm", none⟩ = .ok m ∧ e.Says run ∧
      m.run "7" = .ok run) ∧
    ∃ fault, ofLog rule ⟨bytes "> 7 -- 262143/02/29 -- 12PM", none⟩ =
      .error (.malformedManifestLine 3 fault) := by
  intro rule bytes e
  let first : List Char × Nat := ("> 7 -- 3/1 -- 1pm".toList, 2)
  let last : List Char × Nat := ("> 70 -- 3/1 -- 1pm".toList, 4)
  constructor
  · have hentries : entries rule (bytes "> 7 -- +2016 / 02/29 -- 012 Pm") =
        [first] ++ ("> 7 -- +2016 / 02/29 -- 012 Pm".toList, 3) :: [last] := by decide +kernel
    have hlog : ofLog rule ⟨bytes "> 7 -- +2016 / 02/29 -- 012 Pm", none⟩ = .ok ⟨[
        ⟨"7", Date.atClock ⟨2016, 2, 29, by decide⟩ 12 0 0⟩,
        ⟨"70", Date.atClock ⟨2015, 3, 1, by decide⟩ 13 0 0⟩]⟩ := by decide +kernel
    obtain ⟨run, hsays, hrun⟩ := (run_ofLog_fullDate hentries e).1 _ hlog
    have hid : run.id = "7" := hsays.id_eq
    refine ⟨_, run, hlog, hsays, hid ▸ hrun fun later hlater other hother => ?_⟩
    obtain rfl := List.mem_singleton.1 hlater
    have hlast : (Run.ofKept rule last.1).map (·.id) = .ok "70" := by decide +kernel
    rw [hother] at hlast
    rw [hid, show other.id = "70" from Except.ok.inj hlast]
    decide
  · let late : Run.FullEntry rule "> 7 -- 262143/02/29 -- 12PM".toList := {
      id := ['7']
      year := "262143".toList
      month := "02".toList
      day := "29".toList
      time := "12PM".toList
      date := "262143/02/29".toList
      head?_eq := rfl
      ne_known := by decide
      parts_eq := by decide +kernel
      date_eq := by decide }
    have hentries : entries rule (bytes "> 7 -- 262143/02/29 -- 12PM") =
        [first] ++ ("> 7 -- 262143/02/29 -- 12PM".toList, 3) :: [last] := by decide +kernel
    have hyear : Decimal.Writes 262143 late.year :=
      ⟨⟨late.year, by decide, List.all_eq_true.1 (by decide)⟩, by decide, .inl (by decide)⟩
    refine (run_ofLog_fullDate hentries late).2 262143 hyear (by decide) (.inl (by decide)) ?_
    intro entry hentry
    obtain rfl := List.mem_singleton.1 hentry
    exact ⟨⟨"7", Date.atClock ⟨2015, 3, 1, by decide⟩ 13 0 0⟩, by decide +kernel⟩

/-- The entry of run 1 is accepted for the first year before zero. -/
theorem date_ofLog_other_year :
    let line := "* 1 -- 4294967295/1/1 -- 3am".toList
    let e : Run.FullEntry .standard line := {
      id := ['1']
      year := "4294967295".toList
      month := ['1']
      day := ['1']
      time := "3am".toList
      date := "4294967295/1/1".toList
      head?_eq := rfl
      ne_known := by decide
      parts_eq := by decide +kernel
      date_eq := by decide }
    ∃ m run, ofLog .standard ⟨Text.encodeUtf8 (line ++ ['\n']), none⟩ = .ok m ∧
      m.run "1" = .ok run ∧ Decimal.Writes 4294967295 e.year ∧ run.start.date.year = -1 ∧
      ¬∃ written : Nat, Decimal.Writes written e.year ∧ run.start.date.year = written := by
  intro line e
  let run : Run := ⟨"1", Date.atClock ⟨-1, 1, 1, by decide⟩ 3 0 0⟩
  have hlog : ofLog .standard ⟨Text.encodeUtf8 (line ++ ['\n']), none⟩ = .ok ⟨[run]⟩ := by
    decide +kernel
  have hyear : Decimal.Writes 4294967295 e.year :=
    ⟨⟨e.year, by decide, List.all_eq_true.1 (by decide)⟩, by decide, .inl (by decide)⟩
  refine ⟨⟨[run]⟩, run, hlog, by decide, hyear, rfl, ?_⟩
  rintro ⟨written, -, hwritten⟩
  have hnegative : (-1 : Int) = written := hwritten
  omega

end Manifest

end Throughput
