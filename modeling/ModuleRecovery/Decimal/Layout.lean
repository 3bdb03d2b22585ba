import ModuleRecovery.Decimal.Shortest

/-!
# Writing doubles

A layout says how the shortest digits of a double are set: whether a number of a
given size is written with its point in place or with an exponent, and whether a
whole number keeps a fraction.  The other way to write a double is with a fixed
number of places, rounded from its exact value.
-/

namespace ModuleRecovery.Decimal

structure Layout where
  /-- The numbers with this exponent of their first digit have their point in
  place. -/
  inPlace : Int → Bool
  /-- What is written after the digits of a whole number. -/
  wholeEnd : List Char
  /-- How a tie between two shortest decimals is broken. -/
  tie : Tie

/-- Digits with the point in place. -/
def writeInPlace (wholeEnd : List Char) (decimal : Digits) : List Char :=
  let count : Int := decimal.digits.length
  if decimal.point ≤ 0 then
    '0' :: '.' :: (List.replicate (-decimal.point).toNat '0' ++ decimal.digits)
  else if count ≤ decimal.point then
    decimal.digits ++ List.replicate (decimal.point - count).toNat '0' ++
      wholeEnd
  else
    decimal.digits.take decimal.point.toNat ++
      '.' :: decimal.digits.drop decimal.point.toNat

/-- Digits with the point after the first one, and an exponent. -/
def writeScientific (decimal : Digits) : List Char :=
  let mantissa :=
    match decimal.digits with
    | first :: second :: rest => first :: '.' :: second :: rest
    | digits => digits
  mantissa ++ 'e' :: (toString (decimal.point - 1)).toList

def Layout.write (layout : Layout) (x : Float) : List Char :=
  match parts x with
  | .nan => ['N', 'a', 'N']
  | .infinite negative => signed negative ['i', 'n', 'f']
  | .finite negative 0 _ => signed negative ('0' :: layout.wholeEnd)
  | .finite negative mantissa exponent =>
    let decimal := shortest layout.tie mantissa exponent
    signed negative <|
      if layout.inPlace (decimal.point - 1) then
        writeInPlace layout.wholeEnd decimal
      else writeScientific decimal
where
  signed (negative : Bool) (text : List Char) : List Char :=
    if negative then '-' :: text else text

/-- The quotient rounded to the nearest integer, a half to the even one. -/
def roundDiv (numerator denominator : Nat) : Nat :=
  let quotient := numerator / denominator
  let twice := 2 * (numerator % denominator)
  if twice < denominator then quotient
  else if denominator < twice then quotient + 1
  else if quotient % 2 = 0 then quotient
  else quotient + 1

def writePlaces (places : Nat) (x : Float) : List Char :=
  match parts x with
  | .nan => ['N', 'a', 'N']
  | .infinite negative => Layout.write.signed negative ['i', 'n', 'f']
  | .finite negative mantissa exponent =>
    let scaled := roundDiv (mantissa * above places exponent)
      (below places exponent)
    let digits := Nat.toDigits 10 scaled
    let padded := List.replicate (places + 1 - digits.length) '0' ++ digits
    let whole := padded.length - places
    Layout.write.signed negative
      (padded.take whole ++ '.' :: padded.drop whole)

end ModuleRecovery.Decimal
