import ModuleRecovery.Engine
import ModuleRecovery.Json.Number
import ModuleRecovery.Json.Value

/-!
# Tools

The analysis offered as tools that are called by name with a record of arguments.
A tool answers with a report, or with the message of a failure.  A call of an
unknown tool, or with arguments that do not fit, is not carried out.
-/

namespace ModuleRecovery

structure Tool where
  name : String
  description : String
  inputs : List String
  required : List String
  outputs : List String
  /-- The question that the arguments ask, if they fit. -/
  query? : Json → Option Query

namespace Tool

/-- An argument that may be left out or be null. -/
def limitArgument? (arguments : Json) : Option (Option Nat) :=
  match arguments.member? "limit" with
  | none => some none
  | some .null => some none
  | some (.integer value) =>
    if 0 ≤ value && value ≤ Query.maxLimit then some (some value.toNat) else none
  | some _ => none

/-- An argument that may be left out. -/
def thresholdArgument? (arguments : Json) : Option Float :=
  match arguments.member? "threshold" with
  | none => some Engine.defaultThreshold
  | some (.integer value) => some (Json.Number.integer value).toFloat
  | some (.real value) => some value
  | some _ => none

/-- An argument that must be given. -/
def textArgument? (name : String) (arguments : Json) : Option String :=
  match arguments.member? name with
  | some (.string value) => some value
  | _ => none

def callGraph : Tool where
  name := "call_graph"
  description :=
    "Method-level call graph resolved by method name and parameter count."
  inputs := []
  required := []
  outputs := ["edge_count", "method_count", "methods"]
  query? _ := some .callGraph

def coupling : Tool where
  name := "coupling"
  description := "Normalized class-pair coupling, strongest pairs first."
  inputs := ["limit"]
  required := []
  outputs := ["pair_count", "pairs", "total"]
  query? arguments := (limitArgument? arguments).map .coupling

def dendrogram : Tool where
  name := "dendrogram"
  description :=
    "Agglomerative clustering levels and merge steps over all classes."
  inputs := []
  required := []
  outputs := ["class_count", "levels", "merges"]
  query? _ := some .dendrogram

def identifyModules : Tool where
  name := "identify_modules"
  description :=
    "Identify candidate modules: dendrogram subtrees whose internal coupling " ++
      "reaches the threshold (default 0.02)."
  inputs := ["threshold"]
  required := []
  outputs := ["class_count", "modules", "threshold"]
  query? arguments := (thresholdArgument? arguments).map .modules

def pairCoupling : Tool where
  name := "pair_coupling"
  description := "Coupling between two classes, by qualified name."
  inputs := ["a", "b"]
  required := ["a", "b"]
  outputs := ["first", "raw", "score", "second"]
  query? arguments := do
    let a ← textArgument? "a" arguments
    let b ← textArgument? "b" arguments
    return .pair a b

/-- The tools, sorted by name. -/
def all : List Tool :=
  [callGraph, coupling, dendrogram, identifyModules, pairCoupling]

end Tool

namespace ToolServer

def instructions : String :=
  "Recover candidate modules from a class model by call coupling and " ++
    "hierarchical clustering."

inductive Answer where
  | report (report : Report)
  | failure (message : String)

/-- The text of an answer: the record of the report with its keys sorted, or the
message. -/
def Answer.text : Answer → String
  | .report value => value.toJson.sortKeys.compact
  | .failure message => message

def Answer.isFailure : Answer → Bool
  | .report _ => false
  | .failure _ => true

/-- Calls a tool; nothing if there is no such tool or the arguments do not fit. -/
def call? (engine : Engine) (name : String) (arguments : Json) :
    Option Answer := do
  let tool ← Tool.all.find? (·.name == name)
  let query ← tool.query? arguments
  match engine.answer query with
  | .ok report => return .report report
  | .error error => return .failure error.message

end ToolServer

end ModuleRecovery
