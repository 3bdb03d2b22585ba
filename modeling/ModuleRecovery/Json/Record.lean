import ModuleRecovery.Json.Skip

/-!
# Reading values of a known shape

The readers of this module are asked for a value of one shape.  A scalar of
another shape is read to its end before it is refused, so a scalar that is
itself at fault is reported for that; a list or a record of another shape is
refused at its bracket.

A record may be written in two ways: by its members, in any order and with
unknown members passed over, or as a list of its fields in their order, of which
trailing ones may be left out.
-/

namespace ModuleRecovery.Json

variable {ω α σ : Type}

/-- The fault of a value that has another shape than the one asked for. -/
def refusal (text : List Char) : Fault :=
  match text with
  | [] => .truncated
  | 'n' :: rest => ofWord (word ['u', 'l', 'l'] rest)
  | 't' :: rest => ofWord (word ['r', 'u', 'e'] rest)
  | 'f' :: rest => ofWord (word ['a', 'l', 's', 'e'] rest)
  | '"' :: rest =>
    match readString rest with
    | .ok _ => .mismatch
    | .error fault => fault
  | '[' :: _ => .mismatch
  | '\x7b' :: _ => .mismatch
  | c :: _ =>
    if c = '-' || Text.isAsciiDigit c then
      match readNumber text with
      | .ok _ => .mismatch
      | .error fault => fault
    else .malformed
where
  ofWord : Except Fault (List Char) → Fault
    | .ok _ => .mismatch
    | .error fault => fault

def readText : Scan String := fun input =>
  match skipSpace input with
  | '"' :: rest => readString rest
  | input => .error (refusal input)

def readAnyNumber : Scan Number := fun input =>
  match skipSpace input with
  | [] => .error .truncated
  | c :: rest =>
    if c = '-' || Text.isAsciiDigit c then readNumber (c :: rest)
    else .error (refusal (c :: rest))

/-- Reads an integer between zero and `bound`. -/
def readNatural (bound : Nat) : Scan Nat := fun input =>
  match readAnyNumber input with
  | .error fault => .error fault
  | .ok (.integer value, rest) =>
    if 0 ≤ value && value ≤ bound then .ok (value.toNat, rest)
    else .error .mismatch
  | .ok (.real _, _) => .error .mismatch

/-- Goes to the next item of a list: true when the text is at an item, false when
it is at the closing bracket. -/
def nextItem (first : Bool) : Scan Bool := fun input =>
  match skipSpace input with
  | [] => .error .truncated
  | ']' :: rest => .ok (false, ']' :: rest)
  | c :: rest =>
    if first then .ok (true, c :: rest)
    else if c = ',' then
      match skipSpace rest with
      | [] => .error .truncated
      | ']' :: _ => .error .malformed
      | rest => .ok (true, rest)
    else .error .malformed

/-- Goes past the closing bracket of a list that has no more items. -/
def closeList : Scan Unit := fun input =>
  match skipSpace input with
  | [] => .error .truncated
  | ']' :: rest => .ok ((), rest)
  | _ => .error .malformed

/-- Goes to the next member of a record: true when the text is at a key, false
when it is at the closing bracket. -/
def nextKey (first : Bool) : Scan Bool := fun input =>
  match skipSpace input with
  | [] => .error .truncated
  | '\x7d' :: rest => .ok (false, '\x7d' :: rest)
  | c :: rest =>
    if first then
      if c = '"' then .ok (true, c :: rest) else .error .malformed
    else if c = ',' then
      match skipSpace rest with
      | [] => .error .truncated
      | '"' :: rest => .ok (true, '"' :: rest)
      | _ => .error .malformed
    else .error .malformed

/-- Goes past the closing bracket of a record that has no more members. -/
def closeRecord : Scan Unit := fun input =>
  match skipSpace input with
  | [] => .error .truncated
  | '\x7d' :: rest => .ok ((), rest)
  | _ => .error .malformed

/-- Goes past the colon between a key and its value. -/
def colon : Scan Unit := fun input =>
  match skipSpace input with
  | [] => .error .truncated
  | ':' :: rest => .ok ((), rest)
  | _ => .error .malformed

/-- Reads the items of a list and its closing bracket.  Each round reads a
character, so the length of the text bounds the number of rounds. -/
def readItems (item : Reader ω α) : Nat → Bool → Reader ω (List α)
  | 0, _ => .fail .truncated
  | rounds + 1, first => do
    if ← .scan (nextItem first) then
      let head ← item
      let tail ← readItems item rounds false
      return head :: tail
    else
      .scan closeList
      return []

def readList (item : Reader ω α) : Reader ω (List α) :=
  ⟨fun input =>
    match skipSpace input with
    | '[' :: rest => (readItems item (rest.length + 1) true).run rest
    | input => ([], .error (refusal input))⟩

/-- A field of a record that is being read into a draft of type `σ`. -/
structure Field (ω σ : Type) where
  key : String
  isGiven : σ → Bool
  read : σ → Reader ω σ

/-- Reads the value of a member with the given key.  A field may be given once
only. -/
def readMember (fields : List (Field ω σ)) (key : String) (draft : σ) :
    Reader ω σ :=
  match fields.find? (·.key == key) with
  | some field =>
    if field.isGiven draft then .fail .mismatch
    else do
      .scan colon
      field.read draft
  | none => do
    .scan colon
    .scan fun input => (skipValue input).map (((), ·))
    return draft

/-- Reads the members of a record and its closing bracket. -/
def readMembers (fields : List (Field ω σ)) :
    Nat → Bool → σ → Reader ω σ
  | 0, _, _ => .fail .truncated
  | rounds + 1, first, draft => do
    if ← .scan (nextKey first) then
      let key ← .scan readText
      let draft ← readMember fields key draft
      readMembers fields rounds false draft
    else
      .scan closeRecord
      return draft

/-- Reads the fields of a record that is written as a list. -/
def readPositional : List (Field ω σ) → Bool → σ → Reader ω σ
  | [], _, draft => do
    .scan closeList
    return draft
  | field :: fields, first, draft => do
    if ← .scan (nextItem first) then
      let draft ← field.read draft
      readPositional fields false draft
    else
      .scan closeList
      return draft

/-- Reads a record into a draft and completes it; a draft that cannot be
completed lacks a required field. -/
def readRecord (fields : List (Field ω σ)) (start : σ)
    (complete? : σ → Option α) : Reader ω α := do
  let draft ← ⟨fun input =>
    match skipSpace input with
    | '[' :: rest => (readPositional fields true start).run rest
    | '\x7b' :: rest => (readMembers fields (rest.length + 1) true start).run rest
    | input => ([], .error (refusal input))⟩
  match complete? draft with
  | some value => return value
  | none => .fail .mismatch

def wholeText (value : Reader ω α) (input : String) :
    List ω × Except Fault α :=
  match value.run input.toList with
  | (entries, .error fault) => (entries, .error fault)
  | (entries, .ok (a, rest)) =>
    match atEnd rest with
    | .ok () => (entries, .ok a)
    | .error fault => (entries, .error fault)

end ModuleRecovery.Json
