/-
  Throughput/Number/Binary64.lean
  ===============================
  **Binary64 numbers as exact data.**  A number is a sign and the place its
  magnitude takes in the ascending list of magnitudes: `0` is zero, `1` the
  least subnormal number, and infinity and NaN stand at the end.  Every finite
  magnitude is a whole number of units of `2^-1074`, so each operation is an
  exact computation on natural numbers followed by one rounding,
  `nearestOrdinal`.

  Two orders live here: the total order (`totalKey`), which sorts every number
  including both zeros and both NaNs, and the numeric comparison
  (`numericLe`, `numericEq`), to which the zeros are equal and a NaN is
  comparable to nothing.
-/

namespace Throughput

/-- The place of infinity in the list of magnitudes. -/
def infinityOrdinal : Nat := 2047 * Nat.pow 2 52

/-- A binary64 number: its sign and the place of its magnitude. -/
structure Binary64 where
  negative : Bool
  ordinal : Nat
  ordinal_le : ordinal ≤ infinityOrdinal + 1
  deriving DecidableEq

namespace Binary64

/-! ### Special numbers and classes -/

/-- Zero of either sign. -/
def zero (negative : Bool) : Binary64 := ⟨negative, 0, Nat.zero_le _⟩

/-- Infinity of either sign. -/
def infinity (negative : Bool) : Binary64 := ⟨negative, infinityOrdinal, Nat.le_succ _⟩

/-- NaN of either sign; it stands one place above infinity. -/
def nan (negative : Bool) : Binary64 := ⟨negative, infinityOrdinal + 1, Nat.le_refl _⟩

/-- An operation on numbers that has no result gives this NaN: its sign bit is set. -/
def invalid : Binary64 := nan true

def isNaN (x : Binary64) : Bool := decide (infinityOrdinal < x.ordinal)

def isInfinite (x : Binary64) : Bool := x.ordinal == infinityOrdinal

def isFinite (x : Binary64) : Bool := decide (x.ordinal < infinityOrdinal)

def isZero (x : Binary64) : Bool := x.ordinal == 0

/-! ### Magnitudes in units of `2^-1074` -/

/-- The magnitude at a place, in units of `2^-1074`.  The first `2^53` places
    are one unit apart; every further `2^52` places the distance doubles. -/
def unitsAt (ordinal : Nat) : Nat :=
  let step := ordinal / Nat.pow 2 52 - 1
  (ordinal - step * Nat.pow 2 52) * Nat.pow 2 step

/-- The number of units that make one. -/
def unitsPerOne : Nat := Nat.pow 2 1074

/-- The magnitude of a finite number in units. -/
def units (x : Binary64) : Nat := unitsAt x.ordinal

/-- The signed value of a finite number in units. -/
def signedUnits (x : Binary64) : Int :=
  if x.negative then -(x.units : Int) else (x.units : Int)

/-! ### Rounding -/

/-- The whole number nearest to `n / d`; a tie goes to the even neighbour. -/
def roundHalfEven (n d : Nat) : Nat :=
  let q := n / d
  let r := n % d
  if 2 * r < d then q else if d < 2 * r then q + 1 else q + q % 2

/-- The place of the magnitude nearest to `n / d` units, a tie going to the
    even place.  A quotient of more than 53 binary digits is first brought to
    the distance of its neighbours. -/
def nearestOrdinal (n d : Nat) : Nat :=
  let step := (n / d).log2 - 52
  min infinityOrdinal (step * Nat.pow 2 52 + roundHalfEven n (d * Nat.pow 2 step))

/-- The number nearest to `n / d` units, with the given sign. -/
def ofUnits (negative : Bool) (n d : Nat) : Binary64 :=
  ⟨negative, nearestOrdinal n d, Nat.le_trans (Nat.min_le_left _ _) (Nat.le_succ _)⟩

/-- The number nearest to a whole number. -/
def ofNat (n : Nat) : Binary64 := ofUnits false (n * unitsPerOne) 1

/-- The number nearest to a whole number of either sign. -/
def ofInt (n : Int) : Binary64 := ofUnits (decide (n < 0)) (n.natAbs * unitsPerOne) 1

/-! ### Orders -/

/-- Sort key of the total order.  Negative numbers come first and run
    backwards, so `-0` lies below `0` and the NaNs at both ends. -/
def totalKey (x : Binary64) : Int :=
  if x.negative then -(x.ordinal : Int) - 1 else (x.ordinal : Int)

/-- The total order on all numbers. -/
def sortsBefore (x y : Binary64) : Bool := decide (x.totalKey ≤ y.totalKey)

theorem totalKey_injective {x y : Binary64} (h : x.totalKey = y.totalKey) : x = y := by
  obtain ⟨sx, ox, hx⟩ := x
  obtain ⟨sy, oy, hy⟩ := y
  cases sx <;> cases sy <;> simp only [totalKey, Bool.false_eq_true, if_true, if_false] at h
  · obtain rfl : ox = oy := by omega
    rfl
  · omega
  · omega
  · obtain rfl : ox = oy := by omega
    rfl

/-- Position on the number line, in places; the two zeros coincide. -/
def numericKey (x : Binary64) : Int :=
  if x.negative then -(x.ordinal : Int) else (x.ordinal : Int)

/-- Comparison of values.  A NaN compares with nothing. -/
def numericLe (x y : Binary64) : Bool :=
  !x.isNaN && !y.isNaN && decide (x.numericKey ≤ y.numericKey)

def numericLt (x y : Binary64) : Bool :=
  !x.isNaN && !y.isNaN && decide (x.numericKey < y.numericKey)

/-- Equality of values: the zeros are equal and a NaN differs from itself. -/
def numericEq (x y : Binary64) : Bool :=
  !x.isNaN && !y.isNaN && decide (x.numericKey = y.numericKey)

/-! ### Arithmetic

Each operation first lets a NaN operand through (the left one if both are),
then settles the infinities and zeros, and rounds the exact result. -/

/-- The opposite number; only the sign changes. -/
def neg (x : Binary64) : Binary64 := { x with negative := !x.negative }

/-- The sum.  Of two zeros it is `-0` only if both are, and an exact
    cancellation gives `0`. -/
def add (x y : Binary64) : Binary64 :=
  if x.isNaN then x
  else if y.isNaN then y
  else if x.isInfinite then
    if y.isInfinite && x.negative != y.negative then invalid else x
  else if y.isInfinite then y
  else
    let total := x.signedUnits + y.signedUnits
    if total = 0 then zero (x.negative && y.negative)
    else ofUnits (decide (total < 0)) total.natAbs 1

/-- The difference.  A NaN operand keeps its sign. -/
def sub (x y : Binary64) : Binary64 :=
  if y.isNaN then (if x.isNaN then x else y) else add x y.neg

/-- The product. -/
def mul (x y : Binary64) : Binary64 :=
  if x.isNaN then x
  else if y.isNaN then y
  else
    let negative := x.negative != y.negative
    if x.isInfinite || y.isInfinite then
      if x.isZero || y.isZero then invalid else infinity negative
    else ofUnits negative (x.units * y.units) unitsPerOne

/-- The quotient. -/
def div (x y : Binary64) : Binary64 :=
  if x.isNaN then x
  else if y.isNaN then y
  else
    let negative := x.negative != y.negative
    if x.isInfinite then
      if y.isInfinite then invalid else infinity negative
    else if y.isInfinite then zero negative
    else if y.isZero then
      if x.isZero then invalid else infinity negative
    else ofUnits negative (x.units * unitsPerOne) y.units

/-- The whole part of the square root of a number below `4 ^ digits`. -/
def wholeRootBelow : Nat → Nat → Nat
  | 0, _ => 0
  | digits + 1, n =>
    let r := 2 * wholeRootBelow digits (n / 4)
    if (r + 1) * (r + 1) ≤ n then r + 1 else r

/-- The whole part of the square root. -/
def wholeRoot (n : Nat) : Nat := wholeRootBelow (n.log2 / 2 + 1) n

/-- The square root.  In units the root of `u` is the root of
    `u * unitsPerOne`; a root that is not whole is moved to the middle of its
    unit, which rounds the same way because ties lie on whole units. -/
def sqrt (x : Binary64) : Binary64 :=
  if x.isNaN || x.isZero then x
  else if x.negative then invalid
  else if x.isInfinite then x
  else
    let square := x.units * unitsPerOne
    let root := wholeRoot square
    ofUnits false (2 * root + if root * root = square then 0 else 1) 2

/-- The whole part of a number that is not negative. -/
def floor (x : Binary64) : Nat := x.units / unitsPerOne

/-- The least whole number that is not below a number that is not negative. -/
def ceil (x : Binary64) : Nat := (x.units + unitsPerOne - 1) / unitsPerOne

/-- The nearest whole number in a range, a half going away from zero.  Infinities
    go to the ends of the range, and a NaN to zero. -/
def roundWithin (least greatest : Int) (x : Binary64) : Int :=
  if x.isNaN then 0
  else if x.isInfinite then (if x.negative then least else greatest)
  else
    let magnitude : Int := ((2 * x.units + unitsPerOne) / (2 * unitsPerOne) : Nat)
    max least (min greatest (if x.negative then -magnitude else magnitude))

instance : Add Binary64 := ⟨add⟩
instance : Sub Binary64 := ⟨sub⟩
instance : Mul Binary64 := ⟨mul⟩
instance : Div Binary64 := ⟨div⟩
instance : NatCast Binary64 := ⟨ofNat⟩

end Binary64

end Throughput
