/-!
# Bounded decimal numerals

A numeral is read digit by digit from the left, and reading stops at the first
fault: a character that is no ASCII digit, or a digit that takes the value past
the bound.  Leading zeros are allowed, so a numeral may have any length.
-/

namespace ModuleRecovery.Text

/-- Why a text is not a numeral within the bound. -/
inductive NumeralFault where
  | empty
  | invalidDigit
  | tooLarge
  deriving DecidableEq, Repr

def isAsciiDigit (c : Char) : Bool :=
  '0' ≤ c && c ≤ '9'

def digitValue (c : Char) : Nat :=
  c.toNat - '0'.toNat

/-- The value after one more digit. -/
def Numeral.step (bound value : Nat) (c : Char) : Except NumeralFault Nat :=
  if !isAsciiDigit c then .error .invalidDigit
  else if bound < 10 * value + digitValue c then .error .tooLarge
  else .ok (10 * value + digitValue c)

/-- Reads a non-empty run of ASCII digits whose value is at most `bound`. -/
def Numeral.read (bound : Nat) (text : List Char) : Except NumeralFault Nat :=
  if text.isEmpty then .error .empty
  else text.foldlM (Numeral.step bound) 0

/-- Reads a numeral that may carry a plus sign. -/
def Numeral.readSigned (bound : Nat) (text : List Char) :
    Except NumeralFault Nat :=
  match text with
  | '+' :: digits => Numeral.read bound digits
  | digits => Numeral.read bound digits

/-- The numeral of a number, without leading zeros. -/
def Numeral.write (n : Nat) : List Char :=
  Nat.toDigits 10 n

end ModuleRecovery.Text
