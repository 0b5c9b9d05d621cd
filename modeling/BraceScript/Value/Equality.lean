-- When two values are equal. Arrays are compared element by element; a pair
-- of arrays whose comparison has begun counts as equal inside of it, so
-- arrays that contain themselves are equal when their cycles line up.
import BraceScript.Number.Reading
import BraceScript.Text.Blank
import BraceScript.Value

namespace BraceScript

namespace Heap

/-- Equal as values of one kind. `started` holds the pairs of arrays whose
comparison has begun; the number bounds how deep the arrays are entered. -/
def equalWithin (h : Heap) : Nat → List (Nat × Nat) → Value → Value → Bool
  | 0, _, _, _ => false
  | depth + 1, started, a, b =>
    match a, b with
    | .number x, .number y => x == y
    | .text s, .text t => s == t
    | .boolean p, .boolean q => p == q
    | .void, .void => true
    | .array i, .array j =>
      i == j || started.contains (i, j) ||
        (h.lengthOf i == h.lengthOf j &&
          ((h.items i).toList.zip (h.items j).toList).all fun pair =>
            equalWithin h depth ((i, j) :: started) pair.1 pair.2)
    | _, _ => false

/-- The same kind and equal contents. Every array that is entered adds a new
pair, so the depth is never used up. -/
def strictEq (h : Heap) (a b : Value) : Bool :=
  h.equalWithin (h.size * h.size + 2) [] a b

/-- The number that a text or a truth value is compared by. -/
def comparable : Value → Float
  | .number x => x
  | .boolean b => if b then 1.0 else 0.0
  | .text s =>
    let trimmed := Text.trim s
    if trimmed.isEmpty then 0.0 else (Number.ofText? trimmed.toList).getD Number.nan
  | .array _ | .void => Number.nan

/-- Like strict equality, but a number is compared with a text or a truth
value by its number. -/
def looseEq (h : Heap) (a b : Value) : Bool :=
  match a, b with
  | .number x, .text _ | .number x, .boolean _ => x == comparable b
  | .text _, .number y | .boolean _, .number y => comparable a == y
  | _, _ => h.strictEq a b

end Heap

end BraceScript
