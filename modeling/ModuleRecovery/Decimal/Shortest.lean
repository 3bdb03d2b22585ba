import ModuleRecovery.Decimal.Binary

/-!
# The shortest decimal that reads back

The reals that round to a double form an interval around it, whose ends belong
to it when the mantissa is even.  The decimals with a given number of digits
form a grid, and if the interval holds a point of the grid then it holds one of
the double's two neighbours on that grid.  So the grids are tried from the
coarsest on, and the first with a neighbour in the interval gives the digits: of
two such neighbours the nearer one, and a tie goes as the caller says.
-/

namespace ModuleRecovery.Decimal

/-- Which of two decimals is taken when they are equally near. -/
inductive Tie where
  | up
  | toEven
  deriving DecidableEq, Repr

/-- The digits of a positive decimal without trailing zeros; `point` counts the
digits before the point and is negative when zeros follow the point first. -/
structure Digits where
  digits : List Char
  point : Int
  deriving DecidableEq, Repr

/-- The decimal `coefficient · 10 ^ exponent`. -/
def Digits.ofScaled (coefficient : Nat) (exponent : Int) : Digits :=
  let all := Nat.toDigits 10 coefficient
  ⟨(all.reverse.dropWhile (· == '0')).reverse, exponent + all.length⟩

/-- A positive double with the interval of the reals that round to it, in
quarters of the unit `2 ^ exponent` of its mantissa. -/
structure Interval where
  value : Nat
  low : Nat
  high : Nat
  closed : Bool
  exponent : Int

/-- The gap below a power of two is half the gap above it. -/
def Interval.of (mantissa : Nat) (exponent : Int) : Interval where
  value := 4 * mantissa
  low := 4 * mantissa -
    (if mantissa = hiddenBit && minExponent < exponent then 1 else 2)
  high := 4 * mantissa + 2
  closed := mantissa % 2 = 0
  exponent := exponent - 2

namespace Interval

/-- The decimal `coefficient · 10 ^ grid` lies in the interval. -/
def contains (interval : Interval) (grid : Int) (coefficient : Nat) : Bool :=
  let p := above grid (-interval.exponent)
  let q := below grid (-interval.exponent)
  let point := coefficient * p
  if interval.closed then
    interval.low * q ≤ point && point ≤ interval.high * q
  else
    interval.low * q < point && point < interval.high * q

/-- The largest point of the grid that is not above the double. -/
def floorOn (interval : Interval) (grid : Int) : Nat :=
  interval.value * below grid (-interval.exponent) /
    above grid (-interval.exponent)

/-- The neighbour on the grid that is taken when the interval holds both. -/
def nearer (interval : Interval) (tie : Tie) (grid : Int) : Nat :=
  let floor := interval.floorOn grid
  let twice := 2 * (interval.value * below grid (-interval.exponent))
  let middle := (2 * floor + 1) * above grid (-interval.exponent)
  if twice < middle then floor
  else if middle < twice then floor + 1
  else
    match tie with
    | .up => floor + 1
    | .toEven => if floor % 2 = 0 then floor else floor + 1

/-- The point of the grid that stands for the double, if there is one. -/
def onGrid? (interval : Interval) (tie : Tie) (grid : Int) : Option Nat :=
  let floor := interval.floorOn grid
  match interval.contains grid floor, interval.contains grid (floor + 1) with
  | true, true => some (interval.nearer tie grid)
  | true, false => some floor
  | false, true => some (floor + 1)
  | false, false => none

/-- The number of digits before the point, zero or negative for a fraction.
Every positive double is at least `10 ^ (-324)`. -/
def magnitude (interval : Interval) : Int :=
  (Nat.toDigits 10 (interval.floorOn (-324))).length - 324

end Interval

/-- The shortest decimal that reads back as `mantissa · 2 ^ exponent`.  Seventeen
digits always do. -/
def shortest (tie : Tie) (mantissa : Nat) (exponent : Int) : Digits :=
  let interval := Interval.of mantissa exponent
  let magnitude := interval.magnitude
  let found? := (List.range 17).findSome? fun (count : Nat) =>
    let grid := magnitude - (count + 1)
    (interval.onGrid? tie grid).map (·, grid)
  match found? with
  | some (coefficient, grid) => .ofScaled coefficient grid
  | none => .ofScaled (interval.floorOn (magnitude - 17)) (magnitude - 17)

end ModuleRecovery.Decimal
