-- Doubles read as exact numbers: a sign, a whole number of units and a
-- power of two. Everything that needs more than one rounding step (digits,
-- remainders, whole parts) is computed on this form.

namespace BraceScript.Number

open Float.Model

/-- The exact meaning of a double. A finite one is `mantissa * 2 ^ exponent`,
taken with its sign; both zeros have mantissa 0. -/
inductive Exact where
  | nan
  | infinite (negative : Bool)
  | finite (negative : Bool) (mantissa : Nat) (exponent : Int)

/-- The sign says that the number is below zero (or is the zero below it). -/
def isNegative : UnpackedFloat.Sign → Bool
  | .negative => true
  | .positive => false

/-- What a double stands for. -/
def Exact.ofFloat (x : Float) : Exact :=
  match x.toModel.unpack with
  | .notANumber => .nan
  | .infinity sign => .infinite (isNegative sign)
  | .zero sign => .finite (isNegative sign) 0 0
  | .finite sign mantissa exponent _ => .finite (isNegative sign) mantissa exponent

/-- The double nearest to `mantissa * 2 ^ exponent` with the given sign; a
half goes to the even neighbour, and 0 keeps its sign. -/
def ofDyadic (negative : Bool) (mantissa : Nat) (exponent : Int) : Float :=
  let sign : UnpackedFloat.Sign := if negative then .negative else .positive
  .ofModel (.pack (if mantissa = 0 then .zero sign
    else UnpackedFloat.round Format.binary64 sign mantissa exponent))

/-- The double nearest to a whole number; 0 becomes the positive zero. -/
def ofInt (n : Int) : Float :=
  ofDyadic (n < 0) n.natAbs 0

/-- The double that is not a number. -/
def nan : Float :=
  .ofModel (.pack .notANumber)

/-! ## Whole parts -/

/-- `mantissa * 2 ^ exponent` as a whole number and whether something is
left over. -/
def wholePart (mantissa : Nat) (exponent : Int) : Nat × Bool :=
  if 0 ≤ exponent then (mantissa * Nat.pow 2 exponent.toNat, false)
  else
    let unit := Nat.pow 2 (-exponent).toNat
    (mantissa / unit, mantissa % unit != 0)

/-- The whole number that the double stands for, if it stands for one. -/
def toInt? (x : Float) : Option Int :=
  match Exact.ofFloat x with
  | .finite negative mantissa exponent =>
    let (whole, more) := wholePart mantissa exponent
    if more then none else some (if negative then -whole else whole)
  | _ => none

end BraceScript.Number
