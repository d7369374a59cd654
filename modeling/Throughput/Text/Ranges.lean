/-
  Throughput/Text/Ranges.lean
  ===========================
  **Classes of characters as ranges.**  A property of characters is a table of
  ranges of their numbers, ends included, in ascending order.
-/

namespace Throughput.Text

/-- Whether a character lies in one of the ranges: in the first one that does not
    end before it, if in any. -/
def inRanges (ranges : Array (Nat × Nat)) (c : Char) : Bool :=
  match ranges.find? fun range => c.toNat ≤ range.2 with
  | some (first, _) => first ≤ c.toNat
  | none => false

end Throughput.Text
