import ModuleRecovery.Json.Reader

/-!
# JSON strings

A string runs to the next quote.  A character below U+0020 must be escaped.  An
escape is a letter or the four hexadecimal digits of a UTF-16 code unit, and a
character outside the basic plane is a pair of such units.  A string whose
characters are wanted must not hold half of a pair; a string that is passed over
may.
-/

namespace ModuleRecovery.Json

def hexValue? (c : Char) : Option Nat :=
  if '0' ≤ c && c ≤ '9' then some (c.toNat - 48)
  else if 'a' ≤ c && c ≤ 'f' then some (c.toNat - 87)
  else if 'A' ≤ c && c ≤ 'F' then some (c.toNat - 55)
  else none

def hexValue4? (a b c d : Char) : Option Nat := do
  let a ← hexValue? a
  let b ← hexValue? b
  let c ← hexValue? c
  let d ← hexValue? d
  return ((a * 16 + b) * 16 + c) * 16 + d

/-- The fault of a text that does not go on with four hexadecimal digits: it is
cut off when fewer than four bytes are left. -/
def hexFault (text : List Char) : Fault :=
  if (String.ofList (text.take 4)).utf8ByteSize < 4 then .truncated else .malformed

def hexUnit (text : List Char) : Except Fault (Nat × List Char) :=
  match text with
  | a :: b :: c :: d :: rest =>
    match hexValue4? a b c d with
    | some value => .ok (value, rest)
    | none => .error (hexFault text)
  | text => .error (hexFault text)

def letterEscape? : Char → Option Char
  | '"' => some '"'
  | '\\' => some '\\'
  | '/' => some '/'
  | 'b' => some '\x08'
  | 'f' => some '\x0c'
  | 'n' => some '\n'
  | 'r' => some '\r'
  | 't' => some '\t'
  | _ => none

def isHighSurrogate (unit : Nat) : Bool :=
  0xD800 ≤ unit && unit ≤ 0xDBFF

def isLowSurrogate (unit : Nat) : Bool :=
  0xDC00 ≤ unit && unit ≤ 0xDFFF

/-- Reads the second half of a pair whose first half is `high`. -/
def secondHalf (high : Nat) (text : List Char) :
    Except Fault (Char × List Char) :=
  match text with
  | [] => .error .truncated
  | '\\' :: [] => .error .truncated
  | '\\' :: 'u' :: digits =>
    match hexUnit digits with
    | .error fault => .error fault
    | .ok (low, rest) =>
      if isLowSurrogate low then
        .ok (Char.ofNat
          (0x10000 + (high - 0xD800) * 0x400 + (low - 0xDC00)), rest)
      else .error .malformed
  | _ => .error .malformed

/-- Reads an escape after its backslash. -/
def escape (text : List Char) : Except Fault (Char × List Char) :=
  match text with
  | [] => .error .truncated
  | 'u' :: digits =>
    match hexUnit digits with
    | .error fault => .error fault
    | .ok (unit, rest) =>
      if isLowSurrogate unit then .error .malformed
      else if isHighSurrogate unit then secondHalf unit rest
      else .ok (Char.ofNat unit, rest)
  | c :: rest =>
    match letterEscape? c with
    | some letter => .ok (letter, rest)
    | none => .error .malformed

/-- Passes over an escape after its backslash; halves of pairs are allowed. -/
def skipEscape (text : List Char) : Except Fault (List Char) :=
  match text with
  | [] => .error .truncated
  | 'u' :: digits =>
    match hexUnit digits with
    | .error fault => .error fault
    | .ok (_, rest) => .ok rest
  | c :: rest =>
    match letterEscape? c with
    | some _ => .ok rest
    | none => .error .malformed

theorem hexUnit_length {text rest : List Char} {value : Nat}
    (h : hexUnit text = .ok (value, rest)) : rest.length < text.length := by
  unfold hexUnit at h
  split at h
  · split at h
    · simp only [Except.ok.injEq, Prod.mk.injEq] at h
      simp [← h.2]
      omega
    · simp at h
  · simp at h

theorem secondHalf_length {high : Nat} {text rest : List Char} {c : Char}
    (h : secondHalf high text = .ok (c, rest)) :
    rest.length < text.length := by
  unfold secondHalf at h
  split at h
  · simp at h
  · simp at h
  · split at h
    · simp at h
    · rename_i hunit
      have hshort := hexUnit_length hunit
      split at h
      · simp only [Except.ok.injEq, Prod.mk.injEq] at h
        simp only [← h.2, List.length_cons]
        omega
      · simp at h
  · simp at h

theorem escape_length {text rest : List Char} {c : Char}
    (h : escape text = .ok (c, rest)) : rest.length < text.length := by
  unfold escape at h
  split at h
  · simp at h
  · split at h
    · simp at h
    · rename_i hunit
      have hshort := hexUnit_length hunit
      split at h
      · simp at h
      · split at h
        · have hhalf := secondHalf_length h
          simp only [List.length_cons]
          omega
        · simp only [Except.ok.injEq, Prod.mk.injEq] at h
          simp only [← h.2, List.length_cons]
          omega
  · split at h
    · simp only [Except.ok.injEq, Prod.mk.injEq] at h
      simp [← h.2]
    · simp at h

theorem skipEscape_length {text rest : List Char}
    (h : skipEscape text = .ok rest) : rest.length < text.length := by
  unfold skipEscape at h
  split at h
  · simp at h
  · split at h
    · simp at h
    · rename_i hunit
      have hshort := hexUnit_length hunit
      simp only [Except.ok.injEq] at h
      simp only [← h, List.length_cons]
      omega
  · split at h
    · simp only [Except.ok.injEq] at h
      simp [← h]
    · simp at h

/-- Reads the characters of a string up to its closing quote; `read` holds those
read so far, the last one first. -/
def characters (read text : List Char) :
    Except Fault (List Char × List Char) :=
  match text with
  | [] => .error .truncated
  | c :: rest =>
    if c = '"' then .ok (read.reverse, rest)
    else if c = '\\' then
      match _h : escape rest with
      | .error fault => .error fault
      | .ok (escaped, rest) => characters (escaped :: read) rest
    else if c.toNat < 0x20 then .error .malformed
    else characters (c :: read) rest
termination_by text.length
decreasing_by
  · have := escape_length _h
    simp only [List.length_cons]
    omega
  · simp

/-- Reads a string after its opening quote. -/
def readString (text : List Char) : Except Fault (String × List Char) :=
  match characters [] text with
  | .ok (content, rest) => .ok (String.ofList content, rest)
  | .error fault => .error fault

/-- Passes over a string after its opening quote. -/
def skipString (text : List Char) : Except Fault (List Char) :=
  match text with
  | [] => .error .truncated
  | c :: rest =>
    if c = '"' then .ok rest
    else if c = '\\' then
      match _h : skipEscape rest with
      | .error fault => .error fault
      | .ok rest => skipString rest
    else if c.toNat < 0x20 then .error .malformed
    else skipString rest
termination_by text.length
decreasing_by
  · have := skipEscape_length _h
    simp only [List.length_cons]
    omega
  · simp

/-- The lower-case hexadecimal digit of a value below sixteen. -/
def hexDigit (value : Nat) : Char :=
  if value < 10 then Char.ofNat (48 + value) else Char.ofNat (87 + value)

/-- The written form of a character inside a string: quotes, backslashes and
characters below U+0020 are escaped, by a letter where there is one. -/
def escaped (c : Char) : List Char :=
  if c = '"' then ['\\', '"']
  else if c = '\\' then ['\\', '\\']
  else if c = '\x08' then ['\\', 'b']
  else if c = '\t' then ['\\', 't']
  else if c = '\n' then ['\\', 'n']
  else if c = '\x0c' then ['\\', 'f']
  else if c = '\r' then ['\\', 'r']
  else if c.toNat < 0x20 then
    ['\\', 'u', '0', '0', hexDigit (c.toNat / 16), hexDigit (c.toNat % 16)]
  else [c]

/-- The written form of a string, with its quotes. -/
def quoted (text : String) : List Char :=
  '"' :: (text.toList.flatMap escaped ++ ['"'])

end ModuleRecovery.Json
