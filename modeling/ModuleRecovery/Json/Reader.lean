/-!
# Reading JSON text

A reader takes the characters that are left and gives a value with the
characters after it, or the fault that it met.  Reading is from left to right
and the first fault ends it, so the kind of the fault says what was wrong first.

A reader may make log entries.  They are kept beside the outcome, not inside it:
what was logged before a fault stays logged.
-/

namespace ModuleRecovery.Json

/-- Why a text cannot be read as the value that is asked for. -/
inductive Fault where
  | malformed
  /-- The text holds a value of another shape than the one asked for. -/
  | mismatch
  | truncated
  deriving DecidableEq, Repr

/-- Reading without a log. -/
abbrev Scan (α : Type) : Type :=
  List Char → Except Fault (α × List Char)

/-- Reading with log entries of type `ω`. -/
structure Reader (ω α : Type) where
  run : List Char → List ω × Except Fault (α × List Char)

namespace Reader

variable {ω α β : Type}

protected def pure (a : α) : Reader ω α :=
  ⟨fun text => ([], .ok (a, text))⟩

/-- Reads on after a value; the log entries stand in the order they were made. -/
protected def bind (first : Reader ω α) (next : α → Reader ω β) :
    Reader ω β :=
  ⟨fun text =>
    match first.run text with
    | (entries, .error fault) => (entries, .error fault)
    | (entries, .ok (a, rest)) =>
      let after := (next a).run rest
      (entries ++ after.1, after.2)⟩

instance : Monad (Reader ω) where
  pure := Reader.pure
  bind := Reader.bind

def fail (fault : Fault) : Reader ω α :=
  ⟨fun _ => ([], .error fault)⟩

def scan (read : Scan α) : Reader ω α :=
  ⟨fun text => ([], read text)⟩

def log (entries : List ω) : Reader ω Unit :=
  ⟨fun text => (entries, .ok ((), text))⟩

end Reader

/-- The characters allowed between the parts of a JSON text. -/
def isSpace (c : Char) : Bool :=
  c == ' ' || c == '\t' || c == '\n' || c == '\r'

def skipSpace (text : List Char) : List Char :=
  text.dropWhile isSpace

/-- Reads the rest of a word such as `null` whose first letter is known. -/
def word : List Char → List Char → Except Fault (List Char)
  | [], rest => .ok rest
  | _ :: _, [] => .error .truncated
  | expected :: more, c :: rest =>
    if c = expected then word more rest else .error .malformed

/-- Nothing but space may follow a complete text. -/
def atEnd (text : List Char) : Except Fault Unit :=
  if (skipSpace text).isEmpty then .ok () else .error .malformed

end ModuleRecovery.Json
