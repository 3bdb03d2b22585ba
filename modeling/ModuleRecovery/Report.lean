import ModuleRecovery.Json.Value

/-!
# Reports

What an engine answers, in a form that is ready to be shown: classes, methods
and clusters by name.  The record of a report lists its fields in a fixed order.
-/

namespace ModuleRecovery

structure Health where
  /-- The model file, or nothing for a model without one. -/
  modelPath : String
  excludeTests : Bool
  classCount : Nat
  excludedTestClasses : Nat
  methodCount : Nat
  callEdges : Nat
  resolvedCalls : Nat
  unresolvedCalls : Nat
  coupledPairs : Nat
  deriving DecidableEq, Repr

structure MethodCalls where
  method : String
  calls : List String
  deriving DecidableEq, Repr

structure CallGraphReport where
  methodCount : Nat
  edgeCount : Nat
  methods : List MethodCalls
  deriving DecidableEq, Repr

structure PairReport where
  first : String
  second : String
  raw : Nat
  score : Float

/-- The coupled pairs, strongest first. -/
structure CouplingReport where
  total : Nat
  /-- The number of coupled pairs, whether or not all are listed. -/
  pairCount : Nat
  pairs : List PairReport

structure MatrixReport where
  /-- The sorted names of the classes: the rows and columns of `values`. -/
  classes : List String
  values : List (List Float)

structure MergeReport where
  level : Nat
  left : List String
  right : List String
  coupling : Float

structure DendrogramReport where
  classCount : Nat
  levels : List (List (List String))
  merges : List MergeReport

structure ModuleReport where
  classes : List String
  internalCoupling : Float

structure ModulesReport where
  threshold : Float
  classCount : Nat
  modules : List ModuleReport

inductive Report where
  | health (report : Health)
  | callGraph (report : CallGraphReport)
  | coupling (report : CouplingReport)
  | pair (report : PairReport)
  | matrix (report : MatrixReport)
  | dendrogram (report : DendrogramReport)
  | modules (report : ModulesReport)

section ToJson

open Json

def stringsJson (texts : List String) : Json :=
  .array (texts.map .string)

def Health.toJson (report : Health) : Json :=
  .object
    [("model_path", .string report.modelPath),
     ("exclude_tests", .bool report.excludeTests),
     ("class_count", .ofNat report.classCount),
     ("excluded_test_classes", .ofNat report.excludedTestClasses),
     ("method_count", .ofNat report.methodCount),
     ("call_edges", .ofNat report.callEdges),
     ("resolved_calls", .ofNat report.resolvedCalls),
     ("unresolved_calls", .ofNat report.unresolvedCalls),
     ("coupled_pairs", .ofNat report.coupledPairs)]

def MethodCalls.toJson (report : MethodCalls) : Json :=
  .object
    [("method", .string report.method), ("calls", stringsJson report.calls)]

def CallGraphReport.toJson (report : CallGraphReport) : Json :=
  .object
    [("method_count", .ofNat report.methodCount),
     ("edge_count", .ofNat report.edgeCount),
     ("methods", .array (report.methods.map MethodCalls.toJson))]

def PairReport.toJson (report : PairReport) : Json :=
  .object
    [("first", .string report.first),
     ("second", .string report.second),
     ("raw", .ofNat report.raw),
     ("score", .real report.score)]

def CouplingReport.toJson (report : CouplingReport) : Json :=
  .object
    [("total", .ofNat report.total),
     ("pair_count", .ofNat report.pairCount),
     ("pairs", .array (report.pairs.map PairReport.toJson))]

def MatrixReport.toJson (report : MatrixReport) : Json :=
  .object
    [("classes", stringsJson report.classes),
     ("values", .array (report.values.map fun row => .array (row.map .real)))]

def MergeReport.toJson (report : MergeReport) : Json :=
  .object
    [("level", .ofNat report.level),
     ("left", stringsJson report.left),
     ("right", stringsJson report.right),
     ("coupling", .real report.coupling)]

def DendrogramReport.toJson (report : DendrogramReport) : Json :=
  .object
    [("class_count", .ofNat report.classCount),
     ("levels",
       .array (report.levels.map fun level => .array (level.map stringsJson))),
     ("merges", .array (report.merges.map MergeReport.toJson))]

def ModuleReport.toJson (report : ModuleReport) : Json :=
  .object
    [("classes", stringsJson report.classes),
     ("internal_coupling", .real report.internalCoupling)]

def ModulesReport.toJson (report : ModulesReport) : Json :=
  .object
    [("threshold", .real report.threshold),
     ("class_count", .ofNat report.classCount),
     ("modules", .array (report.modules.map ModuleReport.toJson))]

def Report.toJson : Report → Json
  | .health report => report.toJson
  | .callGraph report => report.toJson
  | .coupling report => report.toJson
  | .pair report => report.toJson
  | .matrix report => report.toJson
  | .dendrogram report => report.toJson
  | .modules report => report.toJson

end ToJson

end ModuleRecovery
