/-
  Throughput/Number/Text.lean
  ===========================
  **Writing numbers.**  Four forms are in use: `plain` (reports and messages)
  never has an exponent; `pointed` (settings) is `plain` with `.0` behind a
  whole number; `scientific` (JSON) turns to an exponent outside
  `10^-5 … 10^16`; `fixed` has a given number of decimal places.  The first
  three show the fewest digits that read back, the last one rounds the exact
  value, ties to even.
-/
import Throughput.Number.Shortest

namespace Throughput

/-! ### Digits and points -/

/-- The decimal digits of a natural number. -/
def digitsOf (n : Nat) : List Char := Nat.toDigits 10 n

def natText (n : Nat) : String := String.ofList (digitsOf n)

def intText (n : Int) : String :=
  if n < 0 then "-" ++ natText n.natAbs else natText n.natAbs

/-- Zeros in front of a text, up to a width. -/
def padLeft (width : Nat) (cs : List Char) : List Char :=
  List.replicate (width - cs.length) '0' ++ cs

/-- Digits with the point `places` digits before their end. -/
def withPoint (places : Nat) (ds : List Char) : List Char :=
  let ds := padLeft (places + 1) ds
  if places = 0 then ds
  else ds.take (ds.length - places) ++ '.' :: ds.drop (ds.length - places)

namespace Digits

/-- All digits written out, without an exponent. -/
def positional (d : Digits) : List Char :=
  if 0 ≤ d.exponent then digitsOf d.significand ++ List.replicate d.exponent.toNat '0'
  else withPoint (-d.exponent).toNat (digitsOf d.significand)

/-- The power of ten of the first digit. -/
def leadingExponent (d : Digits) : Int :=
  d.exponent + ((digitsOf d.significand).length : Int) - 1

/-- One digit before the point, and the exponent behind `e` with its sign. -/
def exponential (d : Digits) : List Char :=
  let ds := digitsOf d.significand
  let mantissa := if ds.length ≤ 1 then ds else withPoint (ds.length - 1) ds
  let e := d.leadingExponent
  mantissa ++ 'e' :: (if e < 0 then '-' else '+') :: digitsOf e.natAbs

end Digits

namespace Binary64

def signText (x : Binary64) : String := if x.negative then "-" else ""

/-- The shortest digits without an exponent; a NaN shows no sign. -/
def plain (x : Binary64) : String :=
  if x.isNaN then "NaN"
  else if x.isInfinite then x.signText ++ "inf"
  else if x.isZero then x.signText ++ "0"
  else x.signText ++ String.ofList (Digits.shortest .upper x.ordinal).positional

/-- Whether a finite number has no fraction. -/
def isWhole (x : Binary64) : Bool := x.units % unitsPerOne == 0

/-- The plain form with `.0` behind a whole number; a NaN keeps its sign. -/
def pointed (x : Binary64) : String :=
  if x.isNaN then x.signText ++ "nan"
  else if x.isInfinite then x.plain
  else if x.isWhole then x.plain ++ ".0"
  else x.plain

/-- The shortest digits of a finite number, with `.0` behind a whole number and
    an exponent when the first digit stands below `10^-5` or from `10^16` up. -/
def scientific (x : Binary64) : String :=
  if x.isZero then x.signText ++ "0.0"
  else
    let d := Digits.shortest .even x.ordinal
    if -5 ≤ d.leadingExponent ∧ d.leadingExponent < 16 then
      x.signText ++ String.ofList d.positional ++ (if 0 ≤ d.exponent then ".0" else "")
    else x.signText ++ String.ofList d.exponential

/-- A given number of decimal places. -/
def fixed (places : Nat) (x : Binary64) : String :=
  if x.isNaN then "NaN"
  else if x.isInfinite then x.signText ++ "inf"
  else
    let rounded := roundHalfEven (x.units * Nat.pow 10 places) unitsPerOne
    x.signText ++ String.ofList (withPoint places (digitsOf rounded))

end Binary64

end Throughput
