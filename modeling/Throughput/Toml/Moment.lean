/-
  Throughput/Toml/Moment.lean
  ===========================
  **Dates and times in TOML.**  A value can be a date, a time of day, or a date
  and a time with an optional offset.  Such a value is written plainly, or as a
  table whose first entry has a name kept for it and a string that writes the
  date; `withDates?` puts dates in the place of these tables.
-/
import Throughput.Calendar.Scan
import Throughput.Toml.Value

namespace Throughput.Toml

/-! ### Written dates -/

/-- How far the hours of a written date may go. -/
structure HourRange where
  /-- The last hour of a day. -/
  last : Nat
  /-- Whether hours and minutes are an offset. -/
  isOffset : (hours minutes : Nat) → Bool

/-- Hours of a date that is written plainly. -/
def plainHours : HourRange := ⟨23, fun hours minutes => decide (hours ≤ 23 ∧ minutes ≤ 59)⟩

/-- Hours of a date in a string: a day reaches hour 24, an offset a whole day. -/
def quotedHours : HourRange := ⟨24, fun hours minutes => decide (hours * 60 + minutes ≤ 24 * 60)⟩

/-- A number of exactly so many digits. -/
def fixedNumber? (count : Nat) (cs : List Char) : Option (Nat × List Char) :=
  let digits := cs.take count
  if digits.length = count ∧ digits.all Decimal.isDigit then
    some (Decimal.ofDigits digits, cs.drop count)
  else none

/-- What follows `year-month-day`. -/
def afterDay? (cs : List Char) : Option (List Char) := do
  let (year, cs) ← fixedNumber? 4 cs
  let cs ← Scan.exactly? '-' cs
  let (month, cs) ← fixedNumber? 2 cs
  let cs ← Scan.exactly? '-' cs
  let (day, cs) ← fixedNumber? 2 cs
  (Date.ofFields? year month day).map fun _ => cs

/-- What follows `hour:minute:second` with an optional fraction.  Second 60 is the
    leap second. -/
def afterClock? (hours : HourRange) (cs : List Char) : Option (List Char) := do
  let (hour, cs) ← fixedNumber? 2 cs
  let cs ← Scan.exactly? ':' cs
  let (minute, cs) ← fixedNumber? 2 cs
  let cs ← Scan.exactly? ':' cs
  let (second, cs) ← fixedNumber? 2 cs
  let (_, cs) ← Scan.fraction? cs
  if hour ≤ hours.last ∧ minute ≤ 59 ∧ second ≤ 60 then some cs else none

/-- What follows an offset from universal time, if there is one. -/
def afterOffset? (hours : HourRange) : List Char → Option (List Char)
  | [] => some []
  | c :: cs =>
    if c = 'Z' ∨ c = 'z' then some cs
    else if c = '+' ∨ c = '-' then do
      let (hour, cs) ← fixedNumber? 2 cs
      let cs ← Scan.exactly? ':' cs
      let (minute, cs) ← fixedNumber? 2 cs
      if hours.isOffset hour minute then some cs else none
    else some (c :: cs)

/-- What follows a date, a time of day or both. -/
def afterMoment? (hours : HourRange) (cs : List Char) : Option (List Char) :=
  match afterDay? cs with
  | none => afterClock? hours cs
  | some rest =>
    match rest with
    | 'T' :: clock | 't' :: clock | ' ' :: clock =>
      match afterClock? hours clock with
      | some rest => afterOffset? hours rest
      | none => some rest
    | _ => some rest

/-- A date that is written plainly, and what follows it. -/
def date? (cs : List Char) : Option (Toml × List Char) :=
  (afterMoment? plainHours cs).map fun rest => (date, rest)

/-! ### Dates as tables -/

/-- The name of the first entry of a table that stands for a date. -/
def dateMark : String := "$__toml_private_datetime"

/-- The value under the first name of a table, if that name marks a date. -/
def marked? : Entries → Option Toml
  | (name, value) :: _ => if name = dateMark then some value else none
  | [] => none

/-- The date that a string writes. -/
def dateOfString? : Toml → Option Toml
  | string text => if afterMoment? quotedHours text.toList = some [] then some date else none
  | _ => none

mutual

/-- A value with dates in the place of the tables that stand for them; nothing if
    such a table holds no date.  Its other entries do not matter. -/
def withDates? : Toml → Option Toml
  | table entries =>
    match marked? entries with
    | some value => dateOfString? value
    | none => (entriesWithDates? entries).map table
  | array items => (itemsWithDates? items).map array
  | value => some value

def entriesWithDates? : List (String × Toml) → Option (List (String × Toml))
  | [] => some []
  | (name, value) :: rest => do
    let value ← withDates? value
    let rest ← entriesWithDates? rest
    return (name, value) :: rest

def itemsWithDates? : List Toml → Option (List Toml)
  | [] => some []
  | item :: rest => do
    let item ← withDates? item
    let rest ← itemsWithDates? rest
    return item :: rest

end

end Throughput.Toml
