import ModuleRecovery.Json.Record
import ModuleRecovery.Json.Value

/-!
# Reading any JSON value

The reader of values whose shape is not known beforehand.  It keeps all members
of a record, in their order.
-/

namespace ModuleRecovery.Json

mutual

/-- Reads a value.  Each call reads a character before it reads a part of the
value, so the length of the text bounds the depth. -/
def anyValue : Nat → List Char → Except Fault (Json × List Char)
  | 0, _ => .error .truncated
  | depth + 1, input =>
    match skipSpace input with
    | [] => .error .truncated
    | 'n' :: rest => (word ['u', 'l', 'l'] rest).map (.null, ·)
    | 't' :: rest => (word ['r', 'u', 'e'] rest).map (.bool true, ·)
    | 'f' :: rest => (word ['a', 'l', 's', 'e'] rest).map (.bool false, ·)
    | '"' :: rest => do
      let (content, rest) ← readString rest
      return (.string content, rest)
    | '[' :: rest => anyItems depth true [] rest
    | '\x7b' :: rest => anyMembers depth true [] rest
    | c :: rest =>
      if c = '-' || Text.isAsciiDigit c then do
        match ← readNumber (c :: rest) with
        | (.integer value, rest) => return (.integer value, rest)
        | (.real value, rest) => return (.real value, rest)
      else .error .malformed

/-- Reads the items of a list; `read` holds those read so far, the last first. -/
def anyItems :
    Nat → Bool → List Json → List Char → Except Fault (Json × List Char)
  | 0, _, _, _ => .error .truncated
  | depth + 1, first, read, input => do
    let (more, rest) ← nextItem first input
    if more then
      let (item, rest) ← anyValue depth rest
      anyItems depth false (item :: read) rest
    else
      let ((), rest) ← closeList rest
      return (.array read.reverse, rest)

def anyMembers :
    Nat → Bool → List (String × Json) → List Char →
      Except Fault (Json × List Char)
  | 0, _, _, _ => .error .truncated
  | depth + 1, first, read, input => do
    let (more, rest) ← nextKey first input
    if more then
      let (key, rest) ← readText rest
      let ((), rest) ← colon rest
      let (value, rest) ← anyValue depth rest
      anyMembers depth false ((key, value) :: read) rest
    else
      let ((), rest) ← closeRecord rest
      return (.object read.reverse, rest)

end

def parse (input : String) : Except Fault Json := do
  let chars := input.toList
  let (value, rest) ← anyValue (chars.length + 1) chars
  atEnd rest
  return value

end ModuleRecovery.Json
