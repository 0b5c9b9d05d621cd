-- Decimal numerals read as doubles: the numerals of the language, which are
-- digits with at most one point, and the wider ones that a text may hold
-- when it is compared with a number.
import BraceScript.Number.Exact

namespace BraceScript.Number

/-- An ASCII decimal digit. -/
def isDigit (c : Char) : Bool := '0' ≤ c && c ≤ '9'

/-- The whole number that digits spell, after `start`. -/
def digitsValue (digits : List Char) (start : Nat) : Nat :=
  digits.foldl (fun value c => value * 10 + (c.toNat - '0'.toNat)) start

/-- The double nearest to `units * 10 ^ exponent`. -/
def ofDecimal (units : Nat) (exponent : Int) : Float :=
  .ofModel (.ofScientific units exponent)

/-- The double nearest to digits before and after a point. -/
def ofDigits (whole fraction : List Char) : Float :=
  ofDecimal (digitsValue fraction (digitsValue whole 0)) (-(fraction.length : Int))

/-! ## Numerals in texts -/

/-- A sign at the front: whether it is a minus, and the rest. -/
def takeSign : List Char → Bool × List Char
  | '-' :: rest => (true, rest)
  | '+' :: rest => (false, rest)
  | cs => (false, cs)

/-- The exponent at the end of a numeral: nothing at all, or an `e` with
digits and perhaps a sign. -/
def exponent? : List Char → Option Int
  | [] => some 0
  | c :: rest =>
    if c.toLower == 'e' then
      let (negative, digits) := takeSign rest
      if digits.isEmpty || !digits.all isDigit then none
      else
        let value : Int := digitsValue digits 0
        some (if negative then -value else value)
    else none

/-- A numeral without a sign: digits with at most one point and at least
one digit, and perhaps an exponent. -/
def numeral? (cs : List Char) : Option Float :=
  let whole := cs.takeWhile isDigit
  let rest := cs.dropWhile isDigit
  let (fraction, rest) :=
    match rest with
    | '.' :: rest => (rest.takeWhile isDigit, rest.dropWhile isDigit)
    | rest => ([], rest)
  if whole.isEmpty && fraction.isEmpty then none
  else (exponent? rest).map fun exponent =>
    ofDecimal (digitsValue fraction (digitsValue whole 0)) (exponent - fraction.length)

/-- The number that a whole text spells: a numeral or the name of an
infinity or of the number that is none, each with a sign if there is one. -/
def ofText? (cs : List Char) : Option Float :=
  let (negative, rest) := takeSign cs
  let size :=
    match String.ofList (rest.map Char.toLower) with
    | "inf" | "infinity" => some (1.0 / 0.0)
    | "nan" => some nan
    | _ => numeral? rest
  size.map fun x => if negative then -x else x

end BraceScript.Number
