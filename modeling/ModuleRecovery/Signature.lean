import ModuleRecovery.Text.Blank
import ModuleRecovery.Text.DecimalDigit
import ModuleRecovery.Text.Numeral

/-!
# Call signatures

A call is recorded by the name of the called method and the number of its
arguments; receivers and types are not recorded.  The written form is
`name:arity`.  Reading allows blanks at the two ends and around the colon.  The
digits may come from any script as far as the form is concerned, but only ASCII
digits denote an arity, so the two faults of the arity are told apart from a
fault of the form.
-/

namespace ModuleRecovery

open Text

/-- What a call and a method are matched by. -/
structure CallSignature where
  name : String
  arity : UInt32
  deriving DecidableEq, Hashable, Repr

namespace CallSignature

/-- Signatures are ordered by name, those of one name by arity. -/
instance : Ord CallSignature where
  compare := compareLex (compareOn name) (compareOn arity)

theorem compare_eq :
    (compare : CallSignature → CallSignature → Ordering) =
      compareLex (compareOn name) (compareOn arity) :=
  rfl

instance : Std.TransOrd CallSignature := by
  unfold Std.TransOrd
  rw [compare_eq]
  infer_instance

instance : Std.LawfulEqOrd CallSignature where
  eq_of_compare := by
    intro a b h
    rw [compare_eq, compareLex_eq_eq] at h
    have hname : a.name = b.name := Std.LawfulEqOrd.eq_of_compare h.1
    have harity : a.arity = b.arity := Std.LawfulEqOrd.eq_of_compare h.2
    cases a
    cases b
    simp_all

/-- Why a text is not a call signature. -/
inductive Fault where
  /-- The text does not have the form of a name, a colon and digits. -/
  | form
  /-- Some digit of the arity is not an ASCII digit. -/
  | invalidDigit
  | tooLarge
  deriving DecidableEq, Repr

/-- The message about `text`, which is quoted as it was given. -/
def Fault.message (text : String) : Fault → String
  | .form => "Invalid call signature '" ++ text ++ "', expected name:paramCount"
  | .invalidDigit =>
    "Invalid parameter count in '" ++ text ++ "': invalid digit found in string"
  | .tooLarge =>
    "Invalid parameter count in '" ++ text ++
      "': number too large to fit in target type"

/-- The written form `name:arity`. -/
def toText (signature : CallSignature) : String :=
  signature.name ++ ":" ++
    String.ofList (Numeral.write signature.arity.toNat)

/-- Names hold neither blanks nor colons. -/
def isNameChar (c : Char) : Bool :=
  !isBlank c && c != ':'

def maxArity : Nat := 4294967295

/-- Reads the arity after the form of the whole text has been checked. -/
def readArity (digits : List Char) : Except Fault UInt32 :=
  match Numeral.read maxArity digits with
  | .ok n => .ok n.toUInt32
  | .error .tooLarge => .error .tooLarge
  | .error _ => .error .invalidDigit

/-- Reads a signature from a text that has no blanks at its ends. -/
def readTrimmed (text : List Char) : Except Fault CallSignature :=
  let name := text.takeWhile isNameChar
  match (text.dropWhile isNameChar).dropWhile isBlank with
  | ':' :: rest =>
    let digits := rest.dropWhile isBlank
    if name.isEmpty || digits.isEmpty || !digits.all isDecimalDigit then
      .error .form
    else
      match readArity digits with
      | .ok arity => .ok ⟨String.ofList name, arity⟩
      | .error fault => .error fault
  | _ => .error .form

def read (text : String) : Except Fault CallSignature :=
  readTrimmed (trim text.toList)

end CallSignature

end ModuleRecovery
