import ModuleRecovery.Decimal.Layout
import ModuleRecovery.Json.Reader

/-!
# What can go wrong in an analysis

The causes of failure with their messages.  A load error has a chain of
messages, the outermost first.
-/

namespace ModuleRecovery

/-- Why a file could not be read as text. -/
inductive FileFault where
  | notFound
  | isDirectory
  | notDirectory
  | notText
  | other (detail : String)
  deriving DecidableEq, Repr

/-- Why no analysis could be made of a model file. -/
inductive LoadError where
  | unreadable (path : String) (fault : FileFault)
  | malformed (path : String) (fault : Json.Fault)
  /-- The calls between classes are too many to be counted. -/
  | countOverflow
  deriving DecidableEq, Repr

namespace LoadError

/-- The message about a document that cannot be read. -/
def invalidDocument : String :=
  "Invalid class model JSON"

/-- The messages, the outermost first. -/
def messages : LoadError → List String
  | unreadable path _ => ["Failed to read class model: " ++ path]
  | malformed path _ =>
    ["Failed to parse class model: " ++ path, invalidDocument]
  | countOverflow => ["Too many calls between classes"]

end LoadError

/-- Why an engine could not answer. -/
inductive EngineError where
  | load (error : LoadError)
  | noBackingFile
  | classNotFound (name : String)
  | invalidThreshold (value : Float)

namespace EngineError

/-- A threshold is written with its point in place whatever its size, and a whole
number without a point; a tie between shortest digits goes up. -/
def thresholdLayout : Decimal.Layout where
  inPlace _ := true
  wholeEnd := []
  tie := .up

def thresholdText (value : Float) : String :=
  String.ofList (thresholdLayout.write value)

/-- The messages, the outermost first. -/
def messages : EngineError → List String
  | load error => error.messages
  | noBackingFile => ["Engine has no backing model file to reload"]
  | classNotFound name => ["Class not found: " ++ name]
  | invalidThreshold value =>
    ["Invalid threshold " ++ thresholdText value ++
      ": expected a value within [0, 1]"]

def message (error : EngineError) : String :=
  error.messages.headD ""

end EngineError

end ModuleRecovery
