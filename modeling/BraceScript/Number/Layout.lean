-- How a double is written, given its digits: where the point goes, when an
-- exponent is used, and what stands for the values without digits. Each
-- place that writes numbers has one layout of its own.
import BraceScript.Number.Decimal

namespace BraceScript.Number

/-- The choices that tell one written form of numbers from another. -/
structure Layout where
  /-- Which digits are taken when two are equally near. -/
  tie : Tie
  /-- The places of the decimal point that are written without an exponent. -/
  positional : Int → Bool
  /-- Whole numbers end in `.0`. -/
  pointZero : Bool
  /-- Positive exponents have a sign. -/
  plusSign : Bool
  zero : String
  negativeZero : String
  infinity : String
  negativeInfinity : String
  nan : String

/-- `count` zeros. -/
def zeros (count : Int) : List Char :=
  List.replicate count.toNat '0'

/-- Digits without an exponent. -/
def Decimal.positional (d : Decimal) (pointZero : Bool) : List Char :=
  if d.point ≤ 0 then '0' :: '.' :: zeros (-d.point) ++ d.digits
  else if d.digits.length ≤ d.point then
    d.digits ++ zeros (d.point - d.digits.length) ++ (if pointZero then ['.', '0'] else [])
  else d.digits.take d.point.toNat ++ '.' :: d.digits.drop d.point.toNat

/-- Digits with one digit before the point and an exponent. -/
def Decimal.scientific (d : Decimal) (plusSign : Bool) : List Char :=
  let mantissa :=
    match d.digits with
    | first :: next :: rest => first :: '.' :: next :: rest
    | digits => digits
  let exponent := d.point - 1
  let sign := if exponent < 0 then ['-'] else if plusSign then ['+'] else []
  mantissa ++ 'e' :: sign ++ Nat.toDigits 10 exponent.natAbs

/-- A double in the given layout. -/
def Layout.write (layout : Layout) (x : Float) : String :=
  match Exact.ofFloat x with
  | .nan => layout.nan
  | .infinite negative => if negative then layout.negativeInfinity else layout.infinity
  | .finite negative mantissa exponent =>
    if mantissa = 0 then if negative then layout.negativeZero else layout.zero
    else
      let d := Decimal.shortest layout.tie mantissa exponent
      let text :=
        if layout.positional d.point then d.positional layout.pointZero
        else d.scientific layout.plusSign
      String.ofList (if negative then '-' :: text else text)

end BraceScript.Number
