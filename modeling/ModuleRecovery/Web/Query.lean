import ModuleRecovery.Json.Text
import ModuleRecovery.Text.Utf8

/-!
# Query strings

A query is a list of parameters separated by `&`; empty ones do not count.  The
first `=` of a parameter separates its name from its value, and a parameter
without one has the empty value.  In both, `+` is a blank and a percent sign with
two hexadecimal digits is a byte; the bytes are then read as UTF-8.
-/

namespace ModuleRecovery.Web

def splitAll (separator : Char) : List Char → List (List Char)
  | [] => [[]]
  | c :: rest =>
    if c = separator then [] :: splitAll separator rest
    else
      match splitAll separator rest with
      | [] => [[c]]
      | piece :: more => (c :: piece) :: more

/-- Splits at the first occurrence of a character, which is dropped. -/
def splitFirst (separator : Char) (text : List Char) :
    List Char × List Char :=
  let (before, rest) := text.span (· != separator)
  (before, rest.drop 1)

/-- Bytes as they are given, with those after percent signs decoded. -/
def percentBytes (text : List Char) : List UInt8 :=
  match text with
  | [] => []
  | c :: rest =>
    match c, rest with
    | '%', a :: b :: after =>
      match Json.hexValue? a, Json.hexValue? b with
      | some high, some low => (16 * high + low).toUInt8 :: percentBytes after
      | _, _ => '%'.toUInt8 :: percentBytes (a :: b :: after)
    | '+', rest => ' '.toUInt8 :: percentBytes rest
    | c, rest => String.utf8EncodeChar c ++ percentBytes rest

def decodePart (text : List Char) : String :=
  String.ofList (Text.decodeLossy (percentBytes text))

/-- The parameters of a query, in their order. -/
def parameters (query : List Char) : List (String × String) :=
  ((splitAll '&' query).filter (!·.isEmpty)).map fun parameter =>
    let (name, value) := splitFirst '=' parameter
    (decodePart name, decodePart value)

/-- The value of a parameter that may be left out but not repeated: nothing if it
is repeated, and `some none` if it is left out. -/
def parameter? (name : String) (all : List (String × String)) :
    Option (Option String) :=
  match all.filter (·.1 == name) with
  | [] => some none
  | [(_, value)] => some (some value)
  | _ => none

end ModuleRecovery.Web
