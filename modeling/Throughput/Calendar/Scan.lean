/-
  Throughput/Calendar/Scan.lean
  =============================
  **Reading written times.**  `Stamp.ofText?` reads a local time such as
  `2015-08-31T03:00:00.5`; `Stamp.ofZonedText?` reads a time with its offset
  and gives the moment in universal time.  Both allow blanks around the parts
  of a date and a clock; a year with a sign may have any number of digits.
-/
import Throughput.Calendar.Stamp
import Throughput.Number.Decimal
import Throughput.Text.Blank

namespace Throughput

namespace Scan

/-! ### Steps of a scanner

A step takes a piece off the front of a text, or fails. -/

def skipBlanks (cs : List Char) : List Char := cs.dropWhile Text.isBlank

/-- A number of at least one and at most `most` digits, after blanks. -/
def number? (most : Nat) (cs : List Char) : Option (Nat × List Char) :=
  let cs := skipBlanks cs
  let digits := (cs.take most).takeWhile Decimal.isDigit
  if digits.isEmpty then none else some (Decimal.ofDigits digits, cs.drop digits.length)

def exactly? (c : Char) : List Char → Option (List Char)
  | d :: cs => if d = c then some cs else none
  | [] => none

/-- A year: up to four digits, or a sign and any number of them. -/
def year? (cs : List Char) : Option (Int × List Char) :=
  match skipBlanks cs with
  | '-' :: ds => signed? (-1) ds
  | '+' :: ds => signed? 1 ds
  | ds => (number? 4 ds).map fun (n, rest) => ((n : Int), rest)
where
  /-- The digits after a sign, with no blanks between. -/
  signed? (sign : Int) (ds : List Char) : Option (Int × List Char) :=
    let digits := ds.takeWhile Decimal.isDigit
    if digits.isEmpty then none
    else some (sign * Decimal.ofDigits digits, ds.drop digits.length)

/-- `year-month-day`. -/
def date? (cs : List Char) : Option (Date × List Char) := do
  let (year, cs) ← year? cs
  let cs ← exactly? '-' (skipBlanks cs)
  let (month, cs) ← number? 2 cs
  let cs ← exactly? '-' (skipBlanks cs)
  let (day, cs) ← number? 2 cs
  let date ← Date.ofFields? year month day
  return (date, cs)

/-- The nanoseconds behind a point; digits after the ninth are passed over. -/
def fraction? : List Char → Option (Nat × List Char)
  | '.' :: cs =>
    let digits := cs.takeWhile Decimal.isDigit
    if digits.isEmpty then none
    else
      let kept := digits.take 9
      some (Decimal.ofDigits kept * Nat.pow 10 (9 - kept.length), cs.drop digits.length)
  | cs => some (0, cs)

/-- `hour:minute:second` with an optional fraction on a given date.  Second 60
    is the leap second. -/
def clock? (date : Date) (cs : List Char) : Option (Stamp × List Char) := do
  let (hour, cs) ← number? 2 cs
  let cs ← exactly? ':' (skipBlanks cs)
  let (minute, cs) ← number? 2 cs
  let cs ← exactly? ':' (skipBlanks cs)
  let (second, cs) ← number? 2 cs
  let (nano, cs) ← fraction? cs
  let stamp ←
    if second = 60 then Stamp.at? date hour minute 59 (nano + nanosPerSecond)
    else Stamp.at? date hour minute second nano
  return (stamp, skipBlanks cs)

/-- The offset from universal time in seconds: `Z`, the letters `UTC`, or a
    signed number of hours and minutes of two digits each. -/
def offset? : List Char → Option (Int × List Char)
  | 'Z' :: cs => some (0, cs)
  | 'z' :: cs => some (0, cs)
  | '+' :: cs => hours? 1 cs
  | '-' :: cs => hours? (-1) cs
  | '\u2212' :: cs => hours? (-1) cs
  | u :: t :: c :: cs =>
    if [u, t, c].map lowerAscii = ['u', 't', 'c'] then some (0, cs) else none
  | _ => none
where
  hours? (sign : Int) : List Char → Option (Int × List Char)
    | h₁ :: h₂ :: cs =>
      match cs.dropWhile fun c => c == ':' || Text.isBlank c with
      | m₁ :: m₂ :: rest =>
        if [h₁, h₂, m₁, m₂].all Decimal.isDigit then
          let minutes := Decimal.ofDigits [m₁, m₂]
          let seconds := Decimal.ofDigits [h₁, h₂] * 3600 + minutes * 60
          if minutes < 60 ∧ seconds < 86400 then some (sign * seconds, rest) else none
        else none
      | _ => none
    | _ => none

end Scan

/-- A local time, and nothing else. -/
def Stamp.ofText? (text : List Char) : Option Stamp := do
  let (date, cs) ← Scan.date? text
  let cs ← Scan.exactly? 'T' (Scan.skipBlanks cs)
  let (stamp, rest) ← Scan.clock? date cs
  if rest.isEmpty then some stamp else none

/-- A time with its offset, as the moment in universal time. -/
def Stamp.ofZonedText? (text : List Char) : Option Stamp := do
  let (date, cs) ← Scan.date? text
  let cs ← match cs with
    | c :: cs => if c = 'T' ∨ c = 't' ∨ c = ' ' then some cs else none
    | [] => none
  let (local_, cs) ← Scan.clock? date cs
  let (offset, rest) ← Scan.offset? cs
  if (Scan.skipBlanks rest).isEmpty then local_.shiftBack? offset else none

end Throughput
