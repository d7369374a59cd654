/-
  Throughput/Statistics.lean
  ==========================
  **Descriptive statistics.**  Everything is computed from the samples in
  ascending order, so the order in which they came has no influence.  The
  percentile of a rank interpolates between its two closest samples; the
  deviation is that of the whole population.  No samples have no statistics.

  The definitions ask of their numbers only what `Quantity` lists, so they can
  be read over exact numbers as well as over `Binary64`.
-/
import Throughput.Failure

namespace Throughput

/-- Numbers that statistics can be computed with. -/
class Quantity (α : Type) extends Add α, Sub α, Mul α, Div α, NatCast α where
  /-- The total order that samples are sorted by. -/
  sortsBefore : α → α → Bool
  /-- The sum of no numbers. -/
  emptySum : α
  sqrt : α → α
  /-- The greatest whole number that is not above. -/
  floor : α → Nat
  /-- The least whole number that is not below. -/
  ceil : α → Nat
  /-- Whether a number lies between 0 and 100, ends included. -/
  isRank : α → Bool

/-- Sums of numbers start from `-0`, which no number changes. -/
instance : Quantity Binary64 where
  sortsBefore := Binary64.sortsBefore
  emptySum := Binary64.zero true
  sqrt := Binary64.sqrt
  floor := Binary64.floor
  ceil := Binary64.ceil
  isRank p := Binary64.numericLe (.zero false) p && Binary64.numericLe p (.ofNat 100)

namespace Samples

variable {α : Type} [Quantity α]

def sorted (samples : List α) : List α := samples.mergeSort Quantity.sortsBefore

/-- The sum of numbers, added from the left. -/
def sum (xs : List α) : α := xs.foldl (· + ·) Quantity.emptySum

def mean (xs : List α) : α := sum xs / (xs.length : α)

/-- The mean square of the distance from the mean. -/
def variance (xs : List α) : α :=
  let m := mean xs
  sum (xs.map fun x => (x - m) * (x - m)) / (xs.length : α)

def deviation (xs : List α) : α := Quantity.sqrt (variance xs)

/-- The position of a rank among a number of samples, counted from zero. -/
def position (count : Nat) (rank : α) : α :=
  rank / ((100 : Nat) : α) * ((count - 1 : Nat) : α)

/-- The index of the last sample that is not behind a position. -/
def lowerIndex (position : α) : Nat := Quantity.floor position

/-- The index of the first sample that is not before a position. -/
def upperIndex (position : α) : Nat := Quantity.ceil position

/-- The value at a position of ascending samples, on the straight line between
    the samples before and after it. -/
def valueAt (first : α) (ascending : List α) (position : α) : α :=
  let low := ascending.getD (lowerIndex position) first
  let high := ascending.getD (upperIndex position) first
  low + (high - low) * (position - (lowerIndex position : α))

end Samples

structure Percentile (α : Type) where
  rank : α
  value : α
  deriving DecidableEq

/-- The statistics of a set of samples, with percentiles in the order asked for. -/
structure Statistics (α : Type) where
  count : Nat
  least : α
  greatest : α
  mean : α
  median : α
  deviation : α
  percentiles : List (Percentile α)
  deriving DecidableEq

/-- Samples in ascending order, at least one. -/
structure Ascending (α : Type) where
  first : α
  rest : List α

namespace Ascending

variable {α : Type} [Quantity α]

/-- Sorts samples; there must be one. -/
def ofSamples (samples : List α) : Except Failure (Ascending α) :=
  match Samples.sorted samples with
  | [] => .error .emptyInput
  | first :: rest => .ok ⟨first, rest⟩

def toList (s : Ascending α) : List α := s.first :: s.rest

def count (s : Ascending α) : Nat := s.rest.length + 1

def least (s : Ascending α) : α := s.first

def greatest (s : Ascending α) : α := s.rest.getLast?.getD s.first

def mean (s : Ascending α) : α := Samples.mean s.toList

def deviation (s : Ascending α) : α := Samples.deviation s.toList

end Ascending

/-- Rejects a rank outside 0 to 100. -/
def checkRank (rank : Binary64) : Except Failure Unit :=
  if Quantity.isRank rank then .ok () else .error (.invalidPercentile rank)

namespace Ascending

/-- The value at a rank between 0 and 100. -/
def valueAtRank {α : Type} [Quantity α] (s : Ascending α) (rank : α) : α :=
  Samples.valueAt s.first s.toList (Samples.position s.count rank)

def percentile (s : Ascending Binary64) (rank : Binary64) : Except Failure Binary64 := do
  checkRank rank
  return s.valueAtRank rank

/-- The values at several ranks, from one sorting. -/
def percentiles (s : Ascending Binary64) (ranks : List Binary64) :
    Except Failure (List (Percentile Binary64)) :=
  ranks.mapM fun rank => do return ⟨rank, ← s.percentile rank⟩

/-- All statistics with the percentiles asked for. -/
def summarize (s : Ascending Binary64) (ranks : List Binary64) :
    Except Failure (Statistics Binary64) := do
  let percentiles ← s.percentiles ranks
  return {
    count := s.count
    least := s.least
    greatest := s.greatest
    mean := s.mean
    median := s.valueAtRank (Binary64.ofNat 50)
    deviation := s.deviation
    percentiles }

end Ascending

namespace Statistics

/-- The value of a rank that was asked for; ranks are compared as numbers. -/
def percentile? (s : Statistics Binary64) (rank : Binary64) : Option Binary64 :=
  (s.percentiles.find? fun p => p.rank.numericEq rank).map (·.value)

/-- The statistics of samples in any order. -/
def ofSamples (samples ranks : List Binary64) : Except Failure (Statistics Binary64) := do
  (← Ascending.ofSamples samples).summarize ranks

end Statistics

end Throughput
