import ModuleRecovery.Text.Numeral

/-!
# Reading doubles

A double may be written as `nan`, `inf` or `infinity` in letters of either case,
or as digits with at most one point among or around them and an optional
exponent.  A sign may stand before all of these.  The value is the double
nearest to the decimal.
-/

namespace ModuleRecovery.Decimal

open Text

def valueOf (digits : List Char) : Nat :=
  digits.foldl (fun value c => 10 * value + digitValue c) 0

/-- The double nearest to `coefficient · 10 ^ exponent`.  Far out of range the
answer is known without computing the power. -/
def nearest (coefficient : Nat) (exponent : Int) : Float :=
  let magnitude := exponent + (Nat.toDigits 10 coefficient).length
  if coefficient = 0 || magnitude < -330 then 0
  else if 310 < magnitude then 1 / 0
  else Float.ofScientific coefficient (exponent < 0) exponent.natAbs

/-- Reads the exponent that ends a text; no text is the exponent zero. -/
def readExponent? (text : List Char) : Option Int :=
  match text with
  | [] => some 0
  | c :: rest =>
    if c = 'e' || c = 'E' then
      let (negative, digits) :=
        match rest with
        | '-' :: digits => (true, digits)
        | '+' :: digits => (false, digits)
        | digits => (false, digits)
      if digits.isEmpty || !digits.all isAsciiDigit then none
      else if negative then some (-(valueOf digits : Int))
      else some (valueOf digits)
    else none

/-- Reads digits, a point and an exponent. -/
def readDecimal? (text : List Char) : Option Float :=
  let (whole, rest) := text.span isAsciiDigit
  let (fraction, rest) :=
    match rest with
    | '.' :: rest => rest.span isAsciiDigit
    | rest => ([], rest)
  if whole.isEmpty && fraction.isEmpty then none
  else
    match readExponent? rest with
    | some exponent =>
      some (nearest (valueOf (whole ++ fraction)) (exponent - fraction.length))
    | none => none

/-- Reads a double without a sign. -/
def readMagnitude? (text : List Char) : Option Float :=
  let letters := text.map Char.toLower
  if letters = ['n', 'a', 'n'] then some (0 / 0)
  else if letters = ['i', 'n', 'f'] ||
      letters = ['i', 'n', 'f', 'i', 'n', 'i', 't', 'y'] then some (1 / 0)
  else readDecimal? text

def read? (text : List Char) : Option Float :=
  match text with
  | '-' :: rest => (readMagnitude? rest).map (-·)
  | '+' :: rest => readMagnitude? rest
  | rest => readMagnitude? rest

end ModuleRecovery.Decimal
