import ModuleRecovery.Json.Reader
import ModuleRecovery.Text.Numeral

/-!
# JSON numbers

A number literal is a sign, whole digits without a leading zero, and optionally
a fraction and an exponent.  A literal of whole digits alone that fits 64 bits
denotes an integer.  Every other literal denotes a double, by scaling: as many
leading digits as fit 64 bits are taken for the significand, further whole
digits only move the point, and the significand is multiplied or divided by a
power of ten.  Each of these steps rounds once.  A literal whose double would be
infinite denotes nothing.
-/

namespace ModuleRecovery.Json

open Text

structure Literal where
  negative : Bool
  whole : List Char
  fraction : List Char
  /-- The sign of the exponent (true for minus) and its digits. -/
  exponent : Option (Bool × List Char)
  deriving DecidableEq, Repr

inductive Number where
  | integer (value : Int)
  | real (value : Float)

namespace Literal

def digits (text : List Char) : List Char × List Char :=
  text.span isAsciiDigit

/-- Reads at least one digit.  `cut` is the fault when the text ends first. -/
def digits1 (cut : Fault) (text : List Char) :
    Except Fault (List Char × List Char) :=
  match text with
  | [] => .error cut
  | c :: _ =>
    if isAsciiDigit c then .ok (digits text) else .error .malformed

/-- Reads the whole digits, which start with zero only if zero is all. -/
def readWhole (cut : Fault) (text : List Char) :
    Except Fault (List Char × List Char) :=
  match digits1 cut text with
  | .error fault => .error fault
  | .ok (whole, rest) =>
    if whole.head? = some '0' && whole.length != 1 then .error .malformed
    else .ok (whole, rest)

/-- Reads the digits after a point, if there is one. -/
def readFraction (cut : Fault) (text : List Char) :
    Except Fault (List Char × List Char) :=
  match text with
  | '.' :: rest => digits1 cut rest
  | rest => .ok ([], rest)

/-- Reads the exponent, if there is one. -/
def readExponent (cut : Fault) (text : List Char) :
    Except Fault (Option (Bool × List Char) × List Char) :=
  match text with
  | c :: rest =>
    if c = 'e' || c = 'E' then
      let (negative, rest) :=
        match rest with
        | '+' :: rest => (false, rest)
        | '-' :: rest => (true, rest)
        | rest => (false, rest)
      match digits1 cut rest with
      | .error fault => .error fault
      | .ok (digits, rest) => .ok (some (negative, digits), rest)
    else .ok (none, text)
  | [] => .ok (none, [])

/-- Reads a literal after its sign. -/
def readUnsigned (cut : Fault) (negative : Bool) (text : List Char) :
    Except Fault (Literal × List Char) := do
  let (whole, text) ← readWhole cut text
  let (fraction, text) ← readFraction cut text
  let (exponent, text) ← readExponent cut text
  return (⟨negative, whole, fraction, exponent⟩, text)

/-- Reads a literal.  `cut` is the fault when the text ends inside it. -/
def read (cut : Fault) (text : List Char) :
    Except Fault (Literal × List Char) :=
  match text with
  | '-' :: rest => readUnsigned cut true rest
  | rest => readUnsigned cut false rest

def maxSignificand : Nat := 0xFFFFFFFFFFFFFFFF

/-- Appends leading digits to a significand while it fits, and gives the digits
that are left. -/
def absorb : Nat → List Char → Nat × List Char
  | significand, [] => (significand, [])
  | significand, c :: rest =>
    let next := 10 * significand + digitValue c
    if next ≤ maxSignificand then absorb next rest
    else (significand, c :: rest)

/-- The largest exponent that is read out; a larger one decides by its sign. -/
def maxExponent : Nat := 0x7FFFFFFF

def powerOfTen (exponent : Nat) : Float :=
  Float.ofScientific 1 false exponent

/-- Scales a significand by a power of ten, or `none` when that is infinite. -/
def scale (significand : Nat) (exponent : Int) : Option Float :=
  let value := significand.toUInt64.toFloat
  if significand = 0 then some value
  else if 308 < exponent then none
  else if 0 ≤ exponent then
    let product := value * powerOfTen exponent.toNat
    if product.isInf then none else some product
  else if -308 ≤ exponent then some (value / powerOfTen (-exponent).toNat)
  else if -616 ≤ exponent then
    some (value / powerOfTen 308 / powerOfTen (-exponent - 308).toNat)
  else some 0

/-- The double of a literal before its sign is applied. -/
def magnitude? (literal : Literal) : Option Float :=
  let (significand, moved) := absorb 0 literal.whole
  let (significand, dropped) := absorb significand literal.fraction
  let point : Int :=
    moved.length - (literal.fraction.length - dropped.length : Int)
  match literal.exponent with
  | none => scale significand point
  | some (negative, digits) =>
    match Numeral.read maxExponent digits with
    | .ok exponent =>
      scale significand (if negative then point - exponent else point + exponent)
    | .error _ => if significand = 0 || negative then some 0 else none

/-- The integer of a literal that has whole digits only and fits 64 bits; minus
zero is no integer. -/
def integer? (literal : Literal) : Option Int :=
  if literal.fraction.isEmpty && literal.exponent.isNone then
    match absorb 0 literal.whole with
    | (value, []) =>
      if !literal.negative then some value
      else if 0 < value && value ≤ 0x8000000000000000 then some (-(value : Int))
      else none
    | _ => none
  else none

/-- The number of a literal, or `none` when it is out of range. -/
def number? (literal : Literal) : Option Number :=
  match literal.integer? with
  | some value => some (.integer value)
  | none =>
    match literal.magnitude? with
    | some value => some (.real (if literal.negative then -value else value))
    | none => none

end Literal

def readNumber (text : List Char) : Except Fault (Number × List Char) :=
  match Literal.read .truncated text with
  | .error fault => .error fault
  | .ok (literal, rest) =>
    match literal.number? with
    | some value => .ok (value, rest)
    | none => .error .malformed

/-- Passes over a number; its size does not matter, and a text that ends inside
it is malformed. -/
def skipNumber (text : List Char) : Except Fault (List Char) :=
  match Literal.read .malformed text with
  | .error fault => .error fault
  | .ok (_, rest) => .ok rest

def Number.toFloat : Number → Float
  | .integer value =>
    if 0 ≤ value then value.toNat.toUInt64.toFloat
    else -(-value).toNat.toUInt64.toFloat
  | .real value => value

end ModuleRecovery.Json
