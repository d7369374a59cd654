/-
  Throughput/Number/Decimal.lean
  ==============================
  **Reading a number from decimal text.**  The text is an optional sign before
  `inf`, `infinity` or `nan` in any letter case, or before digits with at most
  one point and an optional exponent; at least one digit has to stand beside
  the point.  The value read is the number nearest to the decimal written, where
  no digit of the exponent counts behind the one that takes it to `2^16`.
-/
import Throughput.Number.Binary64
import Throughput.Number.Word

namespace Throughput

/-- A decimal `digits * 10 ^ exponent` with a sign. -/
structure Decimal where
  negative : Bool
  digits : Nat
  exponent : Int
  deriving DecidableEq, Repr

namespace Decimal

/-! ### Digits -/

/-- The ten ASCII digits. -/
def isDigit (c : Char) : Bool := decide ('0' ≤ c) && decide (c ≤ '9')

def digitValue (c : Char) : Nat := c.toNat - '0'.toNat

/-- The number that digits of a base write, the least significant first. -/
def fromLeast (base : Nat) (ds : List Nat) : Nat := ds.foldr (fun d n => d + base * n) 0

/-- Digits of a base joined in pairs to digits of its square. -/
def joinPairs (base : Nat) : List Nat → List Nat
  | low :: high :: rest => (low + base * high) :: joinPairs base rest
  | ds => ds

/-- `fromLeast` by rounds of joining, so that a long number is made by few
    multiplications of long numbers. -/
def fromLeastJoined : (rounds : Nat) → (base : Nat) → List Nat → Nat
  | 0, base, ds => fromLeast base ds
  | rounds + 1, base, ds => fromLeastJoined rounds (base * base) (joinPairs base ds)

theorem fromLeast_joinPairs (base : Nat) (ds : List Nat) :
    fromLeast (base * base) (joinPairs base ds) = fromLeast base ds := by
  fun_induction joinPairs base ds with
  | case1 low high rest ih =>
    simp only [fromLeast, List.foldr_cons] at ih ⊢
    rw [ih, Nat.mul_add, Nat.mul_assoc, Nat.add_assoc]
  | case2 ds h =>
    match ds with
    | [] => rfl
    | [d] => simp [fromLeast]
    | low :: high :: rest => exact absurd rfl (h low high rest)

theorem fromLeastJoined_eq (rounds base : Nat) (ds : List Nat) :
    fromLeastJoined rounds base ds = fromLeast base ds := by
  induction rounds generalizing base ds with
  | zero => rfl
  | succ rounds ih => rw [fromLeastJoined, ih, fromLeast_joinPairs]

/-- The number that a run of digits writes. -/
def ofDigits (cs : List Char) : Nat :=
  fromLeastJoined cs.length.log2 10 (cs.map digitValue).reverse

/-- Digit by digit: ten times the number so far and the next digit. -/
theorem ofDigits_eq_foldl (cs : List Char) :
    ofDigits cs = cs.foldl (fun n c => 10 * n + digitValue c) 0 := by
  simp only [ofDigits, fromLeastJoined_eq, fromLeast, List.foldr_reverse, List.foldl_map]
  congr 1
  funext n c
  exact Nat.add_comm _ _

/-- A run of at least one digit and nothing else. -/
def wholeNumber? (cs : List Char) : Option Nat :=
  if !cs.isEmpty && cs.all isDigit then some (ofDigits cs) else none

/-! ### The grammar -/

/-- A leading sign, read away. -/
def splitSign : List Char → Bool × List Char
  | '-' :: cs => (true, cs)
  | '+' :: cs => (false, cs)
  | cs => (false, cs)

/-- Digits behind an optional sign and nothing else. -/
def signed? (cs : List Char) : Option Int :=
  let (negative, ds) := splitSign cs
  (wholeNumber? ds).map fun n => if negative then -(n : Int) else (n : Int)

/-- Digits behind an optional plus sign and nothing else. -/
def unsignedWhole? : List Char → Option Nat
  | '+' :: ds => wholeNumber? ds
  | ds => wholeNumber? ds

/-- The exponent that a run of digits writes.  No digit counts behind the one that
    takes it to `2^16` or beyond. -/
def exponentOfDigits (cs : List Char) : Nat :=
  cs.foldl (fun n c => if Word.fits 16 n then 10 * n + digitValue c else n) 0

/-- What may follow the digits: nothing, or `e` with a signed run of digits. -/
def exponent? : List Char → Option Int
  | [] => some 0
  | c :: cs =>
    let (negative, ds) := splitSign cs
    if (c = 'e' ∨ c = 'E') ∧ !ds.isEmpty ∧ ds.all isDigit then
      some (if negative then -(exponentOfDigits ds : Int) else (exponentOfDigits ds : Int))
    else none

/-- The digits after a point, if a point stands first, and what follows. -/
def splitFraction : List Char → List Char × List Char
  | '.' :: cs => (cs.takeWhile isDigit, cs.dropWhile isDigit)
  | cs => ([], cs)

/-- A decimal without a sign. -/
def unsigned? (negative : Bool) (cs : List Char) : Option Decimal :=
  let whole := cs.takeWhile isDigit
  let (fraction, rest) := splitFraction (cs.dropWhile isDigit)
  if whole.isEmpty && fraction.isEmpty then none
  else (exponent? rest).map fun e => ⟨negative, ofDigits (whole ++ fraction), e - fraction.length⟩

/-! ### Value -/

/-- The number nearest to a decimal.  A decimal above `10^400` is beyond every
    finite number and one below `10^-400` rounds to zero, so the powers of ten
    computed stay small whatever exponent is written. -/
def toBinary64 (d : Decimal) : Binary64 :=
  if d.digits = 0 then .zero d.negative
  else if 400 < d.exponent then .infinity d.negative
  else if d.exponent + (d.digits.log2 + 1 : Nat) < -400 then .zero d.negative
  else if 0 ≤ d.exponent then
    .ofUnits d.negative (d.digits * Nat.pow 10 d.exponent.toNat * Binary64.unitsPerOne) 1
  else .ofUnits d.negative (d.digits * Binary64.unitsPerOne) (Nat.pow 10 (-d.exponent).toNat)

end Decimal

/-- The lower-case form of an ASCII letter; any other character stays. -/
def lowerAscii (c : Char) : Char :=
  if 'A' ≤ c ∧ c ≤ 'Z' then Char.ofNat (c.toNat + 32) else c

/-- The number that a text writes, if it writes one. -/
def Binary64.ofText? (text : List Char) : Option Binary64 :=
  let (negative, body) := Decimal.splitSign text
  let word := String.ofList (body.map lowerAscii)
  if word = "nan" then some (.nan negative)
  else if word = "inf" ∨ word = "infinity" then some (.infinity negative)
  else (Decimal.unsigned? negative body).map Decimal.toBinary64

end Throughput
