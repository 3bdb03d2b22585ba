import ModuleRecovery.CallGraph
import Std.Data.HashMap

/-!
# Call resolution

A recorded call is resolved by its signature alone.  Two views are drawn from
the methods that carry the signature.  The call graph links the call to the
first of them, in the order of classes and then of declaration.  The match keeps
every class that owns one of them, which is what coupling counts; so an
ambiguous call is counted too often rather than too rarely.  A call whose
signature no method carries appears in neither view.
-/

namespace ModuleRecovery

/-- A resolved call with all classes that own its signature. -/
structure SignatureMatch where
  caller : MethodId
  signature : CallSignature
  /-- The positions of the owning classes, each once, in the order of classes. -/
  owners : List Nat
  deriving DecidableEq, Repr

structure Resolution where
  graph : CallGraph
  found : List SignatureMatch
  /-- The number of calls whose signature no method carries. -/
  unresolved : Nat
  deriving DecidableEq, Repr

namespace Resolution

/-- For each signature the methods that carry it, in their order. -/
abbrev Index : Type :=
  Std.HashMap CallSignature (List MethodId)

def index (methods : List (MethodId × MethodUnit)) : Index :=
  methods.foldr (fun (id, method) index =>
    index.insert method.signature (id :: index.getD method.signature [])) ∅

/-- All recorded calls with their callers: methods in their order, and the calls
of a method in the order of signatures. -/
def recordedCalls (methods : List (MethodId × MethodUnit)) :
    List (MethodId × CallSignature) :=
  methods.flatMap fun (id, method) => method.calls.toList.map (id, ·)

/-- The first method that carries the signature of a call, and the match. -/
def resolveCall? (index : Index) (call : MethodId × CallSignature) :
    Option (MethodId × SignatureMatch) :=
  match index.getD call.2 [] with
  | [] => none
  | first :: more =>
    some (first,
      { caller := call.1
        signature := call.2
        owners := ((first :: more).map MethodId.classIndex).eraseDups })

end Resolution

/-- Resolves the recorded calls of a model.  Every method of the model is a node
of the graph, whether or not it takes part in a call. -/
def ClassModel.resolve (model : ClassModel) : Resolution :=
  let methods := model.methods
  let index := Resolution.index methods
  let calls := Resolution.recordedCalls methods
  let resolved := calls.filterMap (Resolution.resolveCall? index)
  let nodes := methods.foldl (fun graph (id, _) => graph.addMethod id) .empty
  { graph := resolved.foldl
      (fun graph (first, found) => graph.addCall found.caller first) nodes
    found := resolved.map Prod.snd
    unresolved := calls.countP fun call =>
      (Resolution.resolveCall? index call).isNone }

end ModuleRecovery
