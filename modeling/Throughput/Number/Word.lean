/-
  Throughput/Number/Word.lean
  ===========================
  **Words of a fixed number of bits.**  Counts, years and whole numbers in
  settings have a width; these are the ranges that a width allows.
-/

namespace Throughput.Word

def count (bits : Nat) : Nat := Nat.pow 2 bits

/-- Whether a number fits so many bits. -/
def fits (bits n : Nat) : Bool := decide (n < count bits)

def greatest (bits : Nat) : Nat := count bits - 1

/-- The least number of so many bits, one of which is the sign. -/
def leastSigned (bits : Nat) : Int := -(count (bits - 1) : Int)

/-- The greatest number of so many bits, one of which is the sign. -/
def greatestSigned (bits : Nat) : Int := (count (bits - 1) : Int) - 1

/-- Whether a number of either sign fits so many bits, one of which is the sign. -/
def fitsSigned (bits : Nat) (n : Int) : Bool :=
  decide (leastSigned bits ≤ n) && decide (n ≤ greatestSigned bits)

/-- The number of either sign that the lowest bits of a number stand for. -/
def wrapSigned (bits : Nat) (n : Int) : Int := Int.bmod n (count bits)

end Throughput.Word
