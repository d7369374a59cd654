/-
  Throughput/Calendar/Stamp.lean
  ==============================
  **Points in time.**  A stamp is a date with a time of day down to the
  nanosecond.  A leap second is kept as second 59 with a fraction of a second
  or more, and written as second 60.  `rank` orders stamps; `label` and `iso`
  are their two written forms.
-/
import Throughput.Calendar.Date

namespace Throughput

def nanosPerSecond : Nat := 1000000000

structure Stamp where
  date : Date
  hour : Nat
  minute : Nat
  second : Nat
  nano : Nat
  hour_lt : hour < 24
  minute_lt : minute < 60
  second_lt : second < 60
  nano_lt : nano < 2000000000
  deriving DecidableEq

/-- A day at a time of its clock. -/
def Date.atClock (date : Date) (hour minute second : Nat)
    (h : hour < 24 ∧ minute < 60 ∧ second < 60 := by decide) : Stamp :=
  ⟨date, hour, minute, second, 0, h.1, h.2.1, h.2.2, by decide⟩

namespace Stamp

/-- The stamp with the given time of day, if there is such a time. -/
def at? (date : Date) (hour minute second nano : Nat) : Option Stamp :=
  if h : hour < 24 ∧ minute < 60 ∧ second < 60 ∧ nano < 2000000000 then
    some ⟨date, hour, minute, second, nano, h.1, h.2.1, h.2.2.1, h.2.2.2⟩
  else none

/-! ### Order -/

def secondOfDay (s : Stamp) : Nat := s.hour * 3600 + s.minute * 60 + s.second

def rank (s : Stamp) : Int :=
  (s.date.rank * 86400 + s.secondOfDay) * 2000000000 + s.nano

theorem rank_injective {a b : Stamp} (h : a.rank = b.rank) : a = b := by
  obtain ⟨da, ha, ma, sa, na, ha1, ma1, sa1, na1⟩ := a
  obtain ⟨db, hb, mb, sb, nb, hb1, mb1, sb1, nb1⟩ := b
  simp only [rank, secondOfDay] at h
  have hd : da.rank = db.rank := by omega
  obtain rfl := Date.rank_injective hd
  obtain rfl : ha = hb := by omega
  obtain rfl : ma = mb := by omega
  obtain rfl : sa = sb := by omega
  obtain rfl : na = nb := by omega
  rfl

instance : LE Stamp := ⟨fun a b => a.rank ≤ b.rank⟩
instance (a b : Stamp) : Decidable (a ≤ b) := inferInstanceAs (Decidable (a.rank ≤ b.rank))

/-! ### Text -/

/-- `hour:minute:second`, each in two digits. -/
def clockText (s : Stamp) : List Char :=
  let second := s.second + s.nano / nanosPerSecond
  Date.twoDigits s.hour ++ ':' :: Date.twoDigits s.minute ++ ':' :: Date.twoDigits second

/-- The fraction of the second in 3, 6 or 9 digits, as few of these as hold it;
    nothing on a full second. -/
def fractionText (s : Stamp) : List Char :=
  let nano := s.nano % nanosPerSecond
  if nano = 0 then []
  else if nano % 1000000 = 0 then '.' :: padLeft 3 (digitsOf (nano / 1000000))
  else if nano % 1000 = 0 then '.' :: padLeft 6 (digitsOf (nano / 1000))
  else '.' :: padLeft 9 (digitsOf nano)

/-- Date and clock with a blank between them. -/
def label (s : Stamp) : String := String.ofList (s.date.text ++ ' ' :: s.clockText)

/-- Date, clock and fraction with a `T` before the clock. -/
def iso (s : Stamp) : List Char := s.date.text ++ 'T' :: s.clockText ++ s.fractionText

/-! ### Counting from 1970 -/

/-- The stamp that lies a number of nanoseconds after the beginning of 1970. -/
def ofEpoch? (nanos : Int) : Option Stamp := do
  let seconds := nanos / nanosPerSecond
  let date ← Date.ofEpochDays? (seconds / 86400)
  let second := (seconds % 86400).toNat
  at? date (second / 3600) (second / 60 % 60) (second % 60) (nanos % nanosPerSecond).toNat

/-! ### Shifting by whole seconds -/

/-- A stamp moved earlier by less than a day of seconds, later if the number is
    negative; the fraction stays. -/
def shiftBack? (s : Stamp) (seconds : Int) : Option Stamp := do
  let moved := (s.secondOfDay : Int) - seconds
  let date ←
    if moved < 0 then s.date.previousDay?
    else if 86400 ≤ moved then s.date.nextDay?
    else some s.date
  let second := (moved % 86400).toNat
  at? date (second / 3600) (second / 60 % 60) (second % 60) s.nano

end Stamp

end Throughput
