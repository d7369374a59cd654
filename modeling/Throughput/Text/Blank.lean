/-
  Throughput/Text/Blank.lean
  ==========================
  **White space, trimming and splitting.**  `isBlank` is the Unicode property
  `White_Space`; text is trimmed and cut into words by it.  `pieces` cuts a
  list at every element of a class and `piecesAt` at every occurrence of a
  separator; both keep empty pieces, so a cut list can be joined again.
-/

namespace Throughput.Text

/-! ### White space -/

/-- The characters with the Unicode property `White_Space`. -/
def isBlank (c : Char) : Bool :=
  let n := c.toNat
  (9 ≤ n && n ≤ 13) || n == 0x20 || n == 0x85 || n == 0xa0 || n == 0x1680 ||
    (0x2000 ≤ n && n ≤ 0x200a) || n == 0x2028 || n == 0x2029 || n == 0x202f ||
    n == 0x205f || n == 0x3000

/-! ### Trimming -/

/-- A list without its longest ending of the given class. -/
def dropEnding {α : Type} (p : α → Bool) (xs : List α) : List α :=
  (xs.reverse.dropWhile p).reverse

def trimEnd (cs : List Char) : List Char := dropEnding isBlank cs

def trim (cs : List Char) : List Char := trimEnd (cs.dropWhile isBlank)

/-! ### Cutting -/

/-- Puts an element in front of the first piece. -/
def prepend {α : Type} (x : α) : List (List α) → List (List α)
  | [] => [[x]]
  | piece :: rest => (x :: piece) :: rest

/-- The pieces between the elements of a class, empty ones included. -/
def pieces {α : Type} (p : α → Bool) (xs : List α) : List (List α) :=
  xs.foldr (fun x rest => if p x then [] :: rest else prepend x rest) [[]]

@[simp] theorem pieces_nil {α : Type} (p : α → Bool) : pieces p ([] : List α) = [[]] := rfl

theorem pieces_cons {α : Type} (p : α → Bool) (x : α) (xs : List α) :
    pieces p (x :: xs) = if p x then [] :: pieces p xs else prepend x (pieces p xs) := rfl

/-- The words of a text: the longest runs without white space. -/
def words (cs : List Char) : List (List Char) :=
  (pieces isBlank cs).filter fun piece => !piece.isEmpty

/-- The pieces between the occurrences of a separator, which is looked for from
    the left and must not be empty. -/
def piecesAt {α : Type} [BEq α] (separator : List α) : List α → List (List α)
  | [] => [[]]
  | x :: xs =>
    if separator.isPrefixOf (x :: xs) then
      [] :: piecesAt separator (xs.drop (separator.length - 1))
    else prepend x (piecesAt separator xs)
  termination_by xs => xs.length
  decreasing_by all_goals simp only [List.length_drop, List.length_cons]; omega

/-! ### Text as strings -/

def joinWith (separator : String) (parts : List String) : String :=
  separator.intercalate parts

end Throughput.Text
