/-
  Throughput/Number/Shortest.lean
  ===============================
  **The fewest digits that read back.**  The decimals that round to a number
  form an interval around it, reaching half way to both neighbours; its ends
  belong to it when the number's place is even.  `shortest` looks for the
  coarsest power of ten with a multiple inside the interval.  Only the two
  multiples next to the number itself have to be tried: if any multiple lies
  inside, one of those does.
-/
import Throughput.Number.Binary64

namespace Throughput

/-- Which of two equally near candidates is taken. -/
inductive Tie where
  | upper
  | even
  deriving DecidableEq, Repr

/-- The decimal `significand * 10 ^ exponent`. -/
structure Digits where
  significand : Nat
  exponent : Int
  deriving DecidableEq, Repr

namespace Digits

/-- The interval of decimals that round to the magnitude at a place, in half
    units, and whether its ends belong to it. -/
structure Interval where
  lower : Nat
  upper : Nat
  closed : Bool

def Interval.around (ordinal : Nat) : Interval where
  lower := Binary64.unitsAt (ordinal - 1) + Binary64.unitsAt ordinal
  upper := Binary64.unitsAt ordinal + Binary64.unitsAt (ordinal + 1)
  closed := ordinal % 2 == 0

/-- A power of ten as the ratio `step / scale` of half units. -/
def gridStep (exponent : Int) : Nat × Nat :=
  if 0 ≤ exponent then (Nat.pow 10 exponent.toNat * Nat.pow 2 1075, 1)
  else (Nat.pow 2 1075, Nat.pow 10 (-exponent).toNat)

/-- Whether `n / scale` half units lie in the interval. -/
def Interval.holds (i : Interval) (scale n : Nat) : Bool :=
  if i.closed then decide (i.lower * scale ≤ n) && decide (n ≤ i.upper * scale)
  else decide (i.lower * scale < n) && decide (n < i.upper * scale)

/-- The multiple of `10 ^ exponent` to write for the magnitude at a place: of
    the multiple below and the one above, whichever lies in the interval, and
    the nearer one if both do. -/
def candidate? (tie : Tie) (ordinal : Nat) (exponent : Int) : Option Nat :=
  let interval := Interval.around ordinal
  let (step, scale) := gridStep exponent
  let target := 2 * Binary64.unitsAt ordinal * scale
  let below := target / step
  let past := target % step
  match interval.holds scale (below * step), interval.holds scale ((below + 1) * step) with
  | true, true =>
    if 2 * past < step then some below
    else if step < 2 * past then some (below + 1)
    else match tie with
      | .upper => some (below + 1)
      | .even => some (below + below % 2)
  | true, false => some below
  | false, true => some (below + 1)
  | false, false => none

/-- The coarsest grid, from `10 ^ exponent` down, that holds a candidate. -/
def searchFrom (tie : Tie) (ordinal : Nat) : (grids : Nat) → (exponent : Int) → Digits
  | 0, exponent =>
    ⟨2 * Binary64.unitsAt ordinal * (gridStep exponent).2 / (gridStep exponent).1, exponent⟩
  | grids + 1, exponent =>
    match candidate? tie ordinal exponent with
    | some n => ⟨n, exponent⟩
    | none => searchFrom tie ordinal grids (exponent - 1)

/-- An exponent whose power of ten is not below the magnitude at a place.  The
    magnitude is below `2 ^ (log2 - 1073)`, and `30103 / 100000` is just above
    the decimal logarithm of two. -/
def exponentAbove (ordinal : Nat) : Int :=
  (((Binary64.unitsAt ordinal).log2 : Int) - 1073) * 30103 / 100000 + 1

/-- The fewest digits that read back as the magnitude at a place, nearest to
    it among those.  Seventeen digits always do, and the search starts at most
    two places above the first of them. -/
def shortest (tie : Tie) (ordinal : Nat) : Digits :=
  searchFrom tie ordinal 21 (exponentAbove ordinal)

end Digits

end Throughput
