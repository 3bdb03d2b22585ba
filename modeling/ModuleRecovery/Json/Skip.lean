import ModuleRecovery.Json.Number
import ModuleRecovery.Json.Text

/-!
# Passing over a value

A value that nobody asks for is still checked to be JSON.  It may nest to any
depth, so the brackets that are open are kept in a list, the innermost first.
-/

namespace ModuleRecovery.Json

inductive Bracket where
  | list
  | record
  deriving DecidableEq, Repr

/-- What passing over expects next. -/
inductive Expected where
  | value
  | key
  | separator
  deriving DecidableEq, Repr

/-- Passes over a value that is no list and no record. -/
def skipScalar (text : List Char) : Except Fault (List Char) :=
  match text with
  | [] => .error .truncated
  | 'n' :: rest => word ['u', 'l', 'l'] rest
  | 't' :: rest => word ['r', 'u', 'e'] rest
  | 'f' :: rest => word ['a', 'l', 's', 'e'] rest
  | '"' :: rest => skipString rest
  | c :: _ =>
    if c = '-' || Text.isAsciiDigit c then skipNumber text
    else .error .malformed

/-- One round: what is expected after it, the brackets open then, and the text
that is left. -/
def skipRound (expected : Expected) (opened : List Bracket)
    (text : List Char) :
    Except Fault (Expected × List Bracket × List Char) :=
  match expected with
  | .value =>
    match skipSpace text with
    | '[' :: rest =>
      match skipSpace rest with
      | [] => .error .truncated
      | ']' :: rest => .ok (.separator, opened, rest)
      | rest => .ok (.value, .list :: opened, rest)
    | '\x7b' :: rest =>
      match skipSpace rest with
      | [] => .error .truncated
      | '\x7d' :: rest => .ok (.separator, opened, rest)
      | rest => .ok (.key, .record :: opened, rest)
    | text => do
      let rest ← skipScalar text
      return (.separator, opened, rest)
  | .key =>
    match skipSpace text with
    | [] => .error .truncated
    | '"' :: rest => do
      let rest ← skipString rest
      match skipSpace rest with
      | [] => .error .truncated
      | ':' :: rest => return (.value, opened, rest)
      | _ => .error .malformed
    | _ => .error .malformed
  | .separator =>
    match skipSpace text, opened with
    | [], _ => .error .truncated
    | ',' :: rest, .list :: _ => .ok (.value, opened, rest)
    | ',' :: rest, .record :: _ => .ok (.key, opened, rest)
    | ']' :: rest, .list :: outer => .ok (.separator, outer, rest)
    | '\x7d' :: rest, .record :: outer => .ok (.separator, outer, rest)
    | _, _ => .error .malformed

/-- Goes round until every bracket is closed.  Each round reads a character, so
the length of the text bounds the number of rounds. -/
def skipRounds :
    Nat → Expected → List Bracket → List Char → Except Fault (List Char)
  | _, .separator, [], text => .ok text
  | 0, _, _, _ => .error .truncated
  | rounds + 1, expected, opened, text =>
    match skipRound expected opened text with
    | .error fault => .error fault
    | .ok (expected, opened, rest) => skipRounds rounds expected opened rest

def skipValue (text : List Char) : Except Fault (List Char) :=
  skipRounds (text.length + 1) .value [] text

end ModuleRecovery.Json
