import ModuleRecovery.Decimal.Layout
import ModuleRecovery.Json.Text

/-!
# JSON values and their text

A record keeps its members in the order they were given.  There are two ways to
write a value: compact, with no space at all, and indented, with each item and
member on a line of its own.
-/

namespace ModuleRecovery

inductive Json where
  | null
  | bool (value : Bool)
  | integer (value : Int)
  | real (value : Float)
  | string (value : String)
  | array (items : List Json)
  | object (members : List (String × Json))

namespace Json

/-- Doubles have their point in place from `1e-5` up to below `1e16`, a whole
number keeps a zero after the point, and a tie goes to the even digit. -/
def realLayout : Decimal.Layout where
  inPlace exponent := -5 ≤ exponent && exponent < 16
  wholeEnd := ['.', '0']
  tie := .toEven

/-- The text of a double; one that is not finite has none of its own. -/
def realText (value : Float) : List Char :=
  if value.isFinite then realLayout.write value else "null".toList

/-- The text of a value that holds no other values. -/
def scalarText : Json → List Char
  | .null => "null".toList
  | .bool true => "true".toList
  | .bool false => "false".toList
  | .integer value => (toString value).toList
  | .real value => realText value
  | .string value => quoted value
  | .array _ => "[]".toList
  | .object _ => "\x7b\x7d".toList

mutual

def compactChars : Json → List Char
  | .array items => '[' :: (compactItems items ++ [']'])
  | .object members => '\x7b' :: (compactMembers members ++ ['\x7d'])
  | scalar => scalarText scalar

def compactItems : List Json → List Char
  | [] => []
  | [item] => compactChars item
  | item :: items => compactChars item ++ ',' :: compactItems items

def compactMembers : List (String × Json) → List Char
  | [] => []
  | [(key, value)] => quoted key ++ ':' :: compactChars value
  | (key, value) :: members =>
    quoted key ++ ':' :: (compactChars value ++ ',' :: compactMembers members)

end

def compact (value : Json) : String :=
  String.ofList value.compactChars

def newLine (depth : Nat) : List Char :=
  '\n' :: List.replicate (2 * depth) ' '

mutual

/-- The indented text of a value that stands at the given depth. -/
def indentedChars (depth : Nat) : Json → List Char
  | .array (item :: items) =>
    '[' :: (indentedItems (depth + 1) (item :: items) ++ newLine depth ++ [']'])
  | .object (member :: members) =>
    '\x7b' :: (indentedMembers (depth + 1) (member :: members) ++
      newLine depth ++ ['\x7d'])
  | scalar => scalarText scalar

def indentedItems (depth : Nat) : List Json → List Char
  | [] => []
  | [item] => newLine depth ++ indentedChars depth item
  | item :: items =>
    newLine depth ++ indentedChars depth item ++ ',' :: indentedItems depth items

def indentedMembers (depth : Nat) : List (String × Json) → List Char
  | [] => []
  | [(key, value)] =>
    newLine depth ++ quoted key ++ ':' :: ' ' :: indentedChars depth value
  | (key, value) :: members =>
    newLine depth ++ quoted key ++ ':' :: ' ' ::
      (indentedChars depth value ++ ',' :: indentedMembers depth members)

end

def indented (value : Json) : String :=
  String.ofList (value.indentedChars 0)

def sortMembers (members : List (String × Json)) : List (String × Json) :=
  members.mergeSort fun a b => decide (a.1 ≤ b.1)

mutual

/-- The value with the members of every record sorted by key. -/
def sortKeys : Json → Json
  | .array items => .array (sortKeysItems items)
  | .object members => .object (sortMembers (sortKeysMembers members))
  | scalar => scalar

def sortKeysItems : List Json → List Json
  | [] => []
  | item :: items => sortKeys item :: sortKeysItems items

def sortKeysMembers : List (String × Json) → List (String × Json)
  | [] => []
  | (key, value) :: members => (key, sortKeys value) :: sortKeysMembers members

end

def member? (key : String) : Json → Option Json
  | .object members => members.lookup key
  | _ => none

def ofNat (n : Nat) : Json :=
  .integer n

end Json

end ModuleRecovery
