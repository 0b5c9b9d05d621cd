-- The fewest decimal digits that read back as a given double. The digits
-- are searched on finer and finer decimal grids: the first grid that has a
-- point inside the interval of reals nearest to the double wins.
import BraceScript.Number.Exact

namespace BraceScript.Number

/-- Decimal digits with a point: `0.d₁d₂… * 10 ^ point`. -/
structure Decimal where
  digits : List Char
  point : Int

/-- Which neighbour is taken when a number lies halfway between two. -/
inductive Tie where
  | up
  | toEven

/-- A positive double on its way to digits. The value is `value / unit`, and
the reals that round to it reach down to `(value - below) / unit` and up to
`(value + above) / unit`, ends included when `closed`. -/
structure Interval where
  value : Nat
  unit : Nat
  below : Nat
  above : Nat
  closed : Bool

/-- The mantissa of the powers of two, but for those at the bottom of the range. -/
def powerMantissa : Nat := 4503599627370496

/-- The interval around `mantissa * 2 ^ exponent`. The gap below a power of
two is half of the gap above it, except at the bottom of the range. -/
def Interval.around (mantissa : Nat) (exponent : Int) : Interval :=
  let scale := Nat.pow 2 (exponent - 2).toNat
  { value := 4 * mantissa * scale
    unit := Nat.pow 2 (2 - exponent).toNat
    below := (if mantissa = powerMantissa ∧ -1074 < exponent then 1 else 2) * scale
    above := 2 * scale
    closed := mantissa % 2 = 0 }

/-- How often a positive fraction below one has to be multiplied by ten to
reach one, counted from `count`. -/
def leadingZeros (unit : Nat) : Nat → Nat → Nat → Nat
  | 0, count, _ => count
  | fuel + 1, count, value =>
    if unit ≤ value then count else leadingZeros unit fuel (count + 1) (value * 10)

/-- The place of the decimal point: `10 ^ (point - 1) ≤ value / unit < 10 ^ point`. -/
def Interval.point (i : Interval) : Int :=
  if i.unit ≤ i.value then (Nat.toDigits 10 (i.value / i.unit)).length
  else 1 - leadingZeros i.unit 400 0 i.value

/-- The distance fits into the gap. -/
def fits (closed : Bool) (distance gap : Nat) : Bool :=
  if closed then distance ≤ gap else distance < gap

/-- The point of the grid of multiples of `10 ^ exponent` that lies in the
interval, the nearer one if both neighbours of the value do. -/
def Interval.onGrid? (i : Interval) (tie : Tie) (exponent : Int) : Option Nat :=
  let finer := Nat.pow 10 (-exponent).toNat
  let value := i.value * finer
  let unit := i.unit * Nat.pow 10 exponent.toNat
  let lower := value / unit
  let down := value % unit
  let up := unit - down
  match fits i.closed down (i.below * finer), fits i.closed up (i.above * finer) with
  | false, false => none
  | true, false => some lower
  | false, true => some (lower + 1)
  | true, true =>
    if down < up then some lower
    else if up < down then some (lower + 1)
    else
      match tie with
      | .up => some (lower + 1)
      | .toEven => some (lower + lower % 2)

/-- Searches grids with more and more digits, `digits` to begin with. -/
def Interval.search (i : Interval) (tie : Tie) (point : Int) : Nat → Nat → Nat × Int
  | 0, _ => (0, point)
  | more + 1, digits =>
    match i.onGrid? tie (point - digits) with
    | some n => (n, point - digits)
    | none => search i tie point more (digits + 1)

/-- A whole number of units of `10 ^ exponent` in digits, without zeros at
the end. -/
def Decimal.ofUnits (n : Nat) (exponent : Int) : Decimal :=
  let digits := Nat.toDigits 10 n
  { digits := (digits.reverse.dropWhile (· == '0')).reverse
    point := exponent + digits.length }

/-- The fewest digits that read back as `mantissa * 2 ^ exponent`, and of
those the nearest. Seventeen are always enough. -/
def Decimal.shortest (tie : Tie) (mantissa : Nat) (exponent : Int) : Decimal :=
  let interval := Interval.around mantissa exponent
  let (n, grid) := interval.search tie interval.point 17 1
  Decimal.ofUnits n grid

end BraceScript.Number
