-- The arithmetic of the language that doubles do not bring along: the
-- floor, rounding, the remainder of a division, and exclusive or.
import BraceScript.Number.Exact

namespace BraceScript.Number

/-! ## Rounding to whole numbers -/

/-- The largest whole number that is not above `x`. -/
def floor (x : Float) : Float :=
  match Exact.ofFloat x with
  | .finite negative mantissa exponent =>
    let (whole, more) := wholePart mantissa exponent
    ofDyadic negative (if negative && more then whole + 1 else whole) 0
  | _ => x

/-- The nearest whole number; a half goes up. -/
def round (x : Float) : Float :=
  if 0.5 ≤ x - floor x then floor x + 1.0 else floor x

/-! ## Remainders -/

/-- The remainder of the division that rounds toward zero, with the sign of
the dividend. It is exact. -/
def remainder (x y : Float) : Float :=
  match Exact.ofFloat x, Exact.ofFloat y with
  | .finite negative mantissa exponent, .finite _ divisor divisorExponent =>
    if divisor = 0 then nan
    else
      let unit := min exponent divisorExponent
      let left := (mantissa * Nat.pow 2 (exponent - unit).toNat) %
        (divisor * Nat.pow 2 (divisorExponent - unit).toNat)
      ofDyadic negative left unit
  | .finite .., .infinite _ => x
  | _, _ => nan

/-! ## Bits -/

/-- A double as a signed 64-bit whole number: cut off toward zero, the ends
of the range for what lies beyond them, and 0 for what is not a number. -/
def toWord (x : Float) : BitVec 64 :=
  let limit : Int := 9223372036854775808
  match Exact.ofFloat x with
  | .nan => 0
  | .infinite negative => BitVec.ofInt 64 (if negative then -limit else limit - 1)
  | .finite negative mantissa exponent =>
    let whole : Int := (wholePart mantissa exponent).1
    BitVec.ofInt 64 (if negative then max (-whole) (-limit) else min whole (limit - 1))

/-- Exclusive or of the two numbers as signed 64-bit whole numbers. -/
def xor (x y : Float) : Float :=
  ofInt (toWord x ^^^ toWord y).toInt

end BraceScript.Number
