import ModuleRecovery.ClassModel
import ModuleRecovery.Json.Record
import ModuleRecovery.Json.Value

/-!
# Class model documents

A document is a JSON record with the list of classes.  Only the names of classes
and methods are required; all else has a default.  An entry in the calls of a
method that is no call signature is left out with a warning.  The warnings about
a list of calls are given once the list has been read.
-/

namespace ModuleRecovery.Document

open Json

/-- A remark made while a document is read or its classes are collected. -/
inductive Warning where
  /-- An entry among the calls of a method was left out. -/
  | malformedCall (entry : String) (fault : CallSignature.Fault)
  /-- A class was left out because an earlier one has its name. -/
  | repeatedClass (name : String)
  deriving DecidableEq, Repr

/-- Counts have 32 bits. -/
def maxCount : Nat := 4294967295

def readCount : Reader Warning UInt32 :=
  .scan fun input => (readNatural maxCount input).map fun (n, rest) =>
    (n.toUInt32, rest)

/-- The call signatures among the entries. -/
def callsOf (entries : List String) : CallSet :=
  .ofList (entries.filterMap fun entry => (CallSignature.read entry).toOption)

/-- The warnings about the other entries. -/
def callWarnings (entries : List String) : List Warning :=
  entries.filterMap fun entry =>
    match CallSignature.read entry with
    | .ok _ => none
    | .error fault => some (.malformedCall entry fault)

def readCalls : Reader Warning CallSet := do
  let entries ← readList (.scan readText)
  .log (callWarnings entries)
  return callsOf entries

structure MethodDraft where
  name : Option String := none
  paramCount : Option UInt32 := none
  lineCount : Option UInt32 := none
  calls : Option CallSet := none

def MethodDraft.complete? (draft : MethodDraft) : Option MethodUnit :=
  draft.name.map fun name =>
    { name
      paramCount := draft.paramCount.getD 0
      lineCount := draft.lineCount.getD 0
      calls := draft.calls.getD ∅ }

def methodFields : List (Field Warning MethodDraft) :=
  [{ key := "name"
     isGiven := (·.name.isSome)
     read := fun draft => return { draft with name := ← .scan readText } },
   { key := "param_count"
     isGiven := (·.paramCount.isSome)
     read := fun draft => return { draft with paramCount := ← readCount } },
   { key := "line_count"
     isGiven := (·.lineCount.isSome)
     read := fun draft => return { draft with lineCount := ← readCount } },
   { key := "calls"
     isGiven := (·.calls.isSome)
     read := fun draft => return { draft with calls := ← readCalls } }]

def readMethod : Reader Warning MethodUnit :=
  readRecord methodFields {} MethodDraft.complete?

structure ClassDraft where
  name : Option String := none
  package : Option String := none
  attributeCount : Option UInt32 := none
  methods : Option (List MethodUnit) := none

def ClassDraft.complete? (draft : ClassDraft) : Option ClassUnit :=
  draft.name.map fun name =>
    { name
      package := draft.package.getD ""
      attributeCount := draft.attributeCount.getD 0
      methods := draft.methods.getD [] }

def classFields : List (Field Warning ClassDraft) :=
  [{ key := "name"
     isGiven := (·.name.isSome)
     read := fun draft => return { draft with name := ← .scan readText } },
   { key := "package"
     isGiven := (·.package.isSome)
     read := fun draft => return { draft with package := ← .scan readText } },
   { key := "attribute_count"
     isGiven := (·.attributeCount.isSome)
     read := fun draft => return { draft with attributeCount := ← readCount } },
   { key := "methods"
     isGiven := (·.methods.isSome)
     read := fun draft =>
       return { draft with methods := ← readList readMethod } }]

def readClass : Reader Warning ClassUnit :=
  readRecord classFields {} ClassDraft.complete?

def documentFields : List (Field Warning (Option (List ClassUnit))) :=
  [{ key := "classes"
     isGiven := Option.isSome
     read := fun _ => return some (← readList readClass) }]

/-- Reads the classes of a document, with the warnings raised up to its end or
to the fault. -/
def read (text : String) : List Warning × Except Fault (List ClassUnit) :=
  wholeText (readRecord documentFields none fun classes => some (classes.getD []))
    text

def readModel (text : String) : List Warning × Except Fault ClassModel :=
  match read text with
  | (warnings, .error fault) => (warnings, .error fault)
  | (warnings, .ok units) =>
    (warnings ++ (ClassModel.repeats units).map .repeatedClass,
      .ok (.ofClasses units))

def methodJson (method : MethodUnit) : Json :=
  .object
    [("name", .string method.name),
     ("param_count", .ofNat method.paramCount.toNat),
     ("line_count", .ofNat method.lineCount.toNat),
     ("calls", .array (method.calls.toList.map (.string ·.toText)))]

def classJson (unit : ClassUnit) : Json :=
  .object
    [("name", .string unit.name),
     ("package", .string unit.package),
     ("attribute_count", .ofNat unit.attributeCount.toNat),
     ("methods", .array (unit.methods.map methodJson))]

def toJson (units : List ClassUnit) : Json :=
  .object [("classes", .array (units.map classJson))]

def write (units : List ClassUnit) : String :=
  (toJson units).compact

end ModuleRecovery.Document
