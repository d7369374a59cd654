/-
  Throughput/Json/Decoding.lean
  =============================
  **Reading data from JSON values.**  A record is read from an object, whose
  entries may come in any order and among others, or from a list of its values
  in the order of its names (`slots?`).  Numbers take a place only if they fit
  it: a count is a whole number of 64 bits, and a quantity must not exceed the
  range of `Binary64`.
-/
import Throughput.Json.Reader
import Throughput.Number.Word

namespace Throughput.Json

/-! ### Plain data -/

def text? : Json → Option String
  | string text => text
  | _ => none

def boolean? : Json → Option Bool
  | boolean b => some b
  | _ => none

def list? {α : Type} (item? : Json → Option α) : Json → Option (List α)
  | array items => items.mapM item?
  | _ => none

/-- A value, or nothing where `null` stands. -/
def option? {α : Type} (value? : Json → Option α) : Json → Option (Option α)
  | null => some none
  | value => (value? value).map some

/-- A whole number of 64 bits, written without point and exponent. -/
def nat? : Json → Option Nat
  | number token =>
    match numberParts? token with
    | some (⟨false, whole, none, none⟩, []) =>
      let n := Decimal.ofDigits whole
      if Word.fits 64 n then some n else none
    | _ => none
  | _ => none

/-! ### Quantities -/

/-- The whole number of the digits that fit 64 bits, and how many digits that is. -/
def fittingDigits (n : Nat) : List Char → Nat × Nat
  | [] => (n, 0)
  | c :: cs =>
    let next := 10 * n + Decimal.digitValue c
    if Word.fits 64 next then
      let (n, count) := fittingDigits next cs
      (n, count + 1)
    else (n, 0)

/-- A power of ten, rounded. -/
def powerOfTen (exponent : Nat) : Binary64 :=
  .ofUnits false (Nat.pow 10 exponent * Binary64.unitsPerOne) 1

/-- A number divided by a power of ten, at most `10^308` at a time; after three
    such steps a number of 64 bits is zero. -/
def divideByPower : (steps : Nat) → Binary64 → (exponent : Nat) → Binary64
  | 0, _, _ => .zero false
  | steps + 1, x, exponent =>
    if exponent ≤ 308 then x / powerOfTen exponent
    else divideByPower steps (x / powerOfTen 308) (exponent - 308)

/-- A number of 64 bits scaled by a power of ten with one rounding of the number
    and one of the result; nothing if it is out of range. -/
def scaled? (n : Nat) (exponent : Int) : Option Binary64 :=
  let x := Binary64.ofNat n
  if exponent < 0 then some (divideByPower 4 x exponent.natAbs)
  else if n = 0 then some x
  else if exponent ≤ 308 then
    let y := x * powerOfTen exponent.toNat
    if y.isFinite then some y else none
  else none

/-- The quantity that a number writes.  Digits count as far as they fit 64 bits;
    further ones before the point raise the exponent, those behind it are
    dropped. -/
def NumberParts.binary64? (parts : NumberParts) : Option Binary64 :=
  let (whole, taken) := fittingDigits 0 parts.whole
  let skipped := parts.whole.length - taken
  let magnitude? :=
    match parts.fraction, parts.exponent with
    | none, none => scaled? whole skipped
    | fraction, exponent =>
      let (n, behind) := fittingDigits whole (fraction.getD [])
      scaled? n (exponent.getD 0 + skipped - behind)
  magnitude?.map fun x => if parts.negative then x.neg else x

def binary64? : Json → Option Binary64
  | number token => (numberParts? token).bind fun (parts, _) => parts.binary64?
  | _ => none

/-! ### Records -/

/-- The value under a name; nothing if the name occurs twice. -/
def slot? (name : String) (entries : List (Option String × Json)) : Option (Option Json) :=
  match entries.filter fun (key, _) => key = some name with
  | [] => some none
  | [(_, value)] => some (some value)
  | _ => none

/-- The values under the given names, in their order.  A list in place of an
    object has at least `least` values and at most one for each name. -/
def slots? (names : List String) (least : Nat) : Json → Option (List (Option Json))
  | object entries =>
    if entries.all fun (key, _) => key.isSome then names.mapM (slot? · entries) else none
  | array items =>
    if least ≤ items.length ∧ items.length ≤ names.length then
      some (items.map some ++ List.replicate (names.length - items.length) none)
    else none
  | _ => none

end Throughput.Json
