/-
  Throughput/Calendar/Date.lean
  =============================
  **Calendar dates.**  A date of the Gregorian calendar, extended to both sides
  and bounded by the years it can be written for.  Dates are ordered through
  `rank`, one number that grows with the year, the month and the day;
  `nextDay?` is the following day (`rank_lt_of_nextDay?` says that it is later)
  and `daysBetween` lists the days strictly between two dates.
-/
import Throughput.Number.Text

namespace Throughput

/-! ### The calendar -/

def isLeapYear (year : Int) : Bool :=
  year % 4 == 0 && (year % 100 != 0 || year % 400 == 0)

/-- The number of days of a month; a month outside the year has none. -/
def daysInMonth (year : Int) (month : Nat) : Nat :=
  match month with
  | 1 | 3 | 5 | 7 | 8 | 10 | 12 => 31
  | 4 | 6 | 9 | 11 => 30
  | 2 => if isLeapYear year then 29 else 28
  | _ => 0

theorem daysInMonth_le (year : Int) (month : Nat) : daysInMonth year month ≤ 31 := by
  unfold daysInMonth
  split <;> try decide
  split <;> decide

def firstYear : Int := -262143
def lastYear : Int := 262142

/-- The fields name a day of the calendar within the years in use. -/
def IsDate (year : Int) (month day : Nat) : Prop :=
  firstYear ≤ year ∧ year ≤ lastYear ∧ 1 ≤ month ∧ month ≤ 12 ∧
    1 ≤ day ∧ day ≤ daysInMonth year month

instance (year : Int) (month day : Nat) : Decidable (IsDate year month day) := by
  unfold IsDate; infer_instance

structure Date where
  year : Int
  month : Nat
  day : Nat
  isDate : IsDate year month day
  deriving DecidableEq

namespace Date

/-- The date with the given fields, if the calendar has it. -/
def ofFields? (year : Int) (month day : Nat) : Option Date :=
  if h : IsDate year month day then some ⟨year, month, day, h⟩ else none

/-! ### Order -/

def rank (d : Date) : Int := (d.year * 16 + d.month) * 32 + d.day

theorem bounds (d : Date) : 1 ≤ d.month ∧ d.month ≤ 12 ∧ 1 ≤ d.day ∧ d.day ≤ 31 := by
  obtain ⟨_, _, hm, hm', hd, hd'⟩ := d.isDate
  exact ⟨hm, hm', hd, Nat.le_trans hd' (daysInMonth_le _ _)⟩

theorem rank_injective {a b : Date} (h : a.rank = b.rank) : a = b := by
  have ha := a.bounds
  have hb := b.bounds
  obtain ⟨ya, ma, da, _⟩ := a
  obtain ⟨yb, mb, db, _⟩ := b
  simp only [rank] at h ha hb
  obtain rfl : ya = yb := by omega
  obtain rfl : ma = mb := by omega
  obtain rfl : da = db := by omega
  rfl

instance : LT Date := ⟨fun a b => a.rank < b.rank⟩
instance : LE Date := ⟨fun a b => a.rank ≤ b.rank⟩
instance (a b : Date) : Decidable (a < b) := inferInstanceAs (Decidable (a.rank < b.rank))
instance (a b : Date) : Decidable (a ≤ b) := inferInstanceAs (Decidable (a.rank ≤ b.rank))

/-! ### Neighbours -/

/-- The following day, unless the last year is over. -/
def nextDay? (d : Date) : Option Date :=
  if d.day < daysInMonth d.year d.month then ofFields? d.year d.month (d.day + 1)
  else if d.month < 12 then ofFields? d.year (d.month + 1) 1
  else ofFields? (d.year + 1) 1 1

/-- The day before, unless the first year has not begun. -/
def previousDay? (d : Date) : Option Date :=
  if 1 < d.day then ofFields? d.year d.month (d.day - 1)
  else if 1 < d.month then ofFields? d.year (d.month - 1) (daysInMonth d.year (d.month - 1))
  else ofFields? (d.year - 1) 12 31

theorem eq_of_ofFields? {year : Int} {month day : Nat} {d : Date}
    (h : ofFields? year month day = some d) :
    d.year = year ∧ d.month = month ∧ d.day = day := by
  unfold ofFields? at h
  split at h
  · cases h; exact ⟨rfl, rfl, rfl⟩
  · cases h

theorem rank_lt_of_nextDay? {d next : Date} (h : d.nextDay? = some next) :
    d.rank < next.rank := by
  have hb := d.bounds
  unfold nextDay? at h
  unfold rank
  split at h
  · obtain ⟨hy, hm, hd⟩ := eq_of_ofFields? h
    rw [hy, hm, hd]; omega
  · split at h <;>
      · obtain ⟨hy, hm, hd⟩ := eq_of_ofFields? h
        rw [hy, hm, hd]; omega

set_option linter.unusedVariables false in
/-- The days strictly between two dates, in order. -/
def daysBetween (first last : Date) : List Date :=
  match h : first.nextDay? with
  | none => []
  | some next => if next < last then next :: daysBetween next last else []
  termination_by (last.rank - first.rank).toNat
  decreasing_by
    have := rank_lt_of_nextDay? h
    have : next.rank < last.rank := by assumption
    omega

/-! ### Text -/

/-- A year in four digits; outside the years `0` to `9999` it has a sign. -/
def yearText (year : Int) : List Char :=
  let digits := padLeft 4 (digitsOf year.natAbs)
  if 0 ≤ year ∧ year ≤ 9999 then digits
  else (if year < 0 then '-' else '+') :: digits

def twoDigits (n : Nat) : List Char := padLeft 2 (digitsOf n)

/-- `year-month-day`. -/
def text (d : Date) : List Char :=
  yearText d.year ++ '-' :: twoDigits d.month ++ '-' :: twoDigits d.day

/-! ### Counting days -/

/-- The date that lies a number of days after the first of January 1970.  Years
    are counted from March, so that the leap day ends a year, in cycles of 400
    years of 146097 days. -/
def ofEpochDays? (days : Int) : Option Date :=
  let shifted := days + 719468
  let cycle := shifted / 146097
  let dayOfCycle := (shifted % 146097).toNat
  let yearOfCycle :=
    (dayOfCycle - dayOfCycle / 1460 + dayOfCycle / 36524 - dayOfCycle / 146096) / 365
  let dayOfYear := dayOfCycle - (365 * yearOfCycle + yearOfCycle / 4 - yearOfCycle / 100)
  let marchMonth := (5 * dayOfYear + 2) / 153
  let day := dayOfYear - (153 * marchMonth + 2) / 5 + 1
  let month := if marchMonth < 10 then marchMonth + 3 else marchMonth - 9
  let year := cycle * 400 + yearOfCycle + (if month ≤ 2 then 1 else 0)
  ofFields? year month day

end Date

end Throughput
