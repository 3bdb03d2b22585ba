import ModuleRecovery.Proofs.CallGraph.Capacity
import ModuleRecovery.Proofs.Resolution.Search

/-!
# Strict resolution

Resolving goes over the positions of the methods three times: to index their
signatures, to enter them into the graph, and to resolve what they call.  The
strict form looks each method up by its position every time, fills a graph of
limited capacity call by call, and gives nothing as soon as there is no method at
a position or no room in the graph.

All positions are those of methods.  So it is the capacity alone that decides: it
has to hold all methods, and all recorded calls whose signature some method
carries.
-/

namespace ModuleRecovery

/-! ## Methods by position -/

namespace ClassModel

/-- The positions of all methods, counted out class by class. -/
def methodIds (model : ClassModel) : List MethodId :=
  model.classes.zipIdx.flatMap fun (unit, index) =>
    (List.range unit.methods.length).map (⟨index, ·⟩)

def strictMethods? (model : ClassModel) :
    Option (List (MethodId × MethodUnit)) :=
  model.methodIds.mapM fun id => do
    let method ← model.method? id
    return (id, method)

def strictIndex? (model : ClassModel) : Option Resolution.Index := do
  let methods ← model.strictMethods?
  return Resolution.index methods

def strictRecordedCalls? (model : ClassModel) :
    Option (List (MethodId × CallSignature)) := do
  let methods ← model.strictMethods?
  return Resolution.recordedCalls methods

theorem methodIds_eq (model : ClassModel) :
    model.methodIds = model.methods.map Prod.fst := by
  have hclass : ∀ entry : ClassUnit × Nat,
      (methodsOf entry.2 entry.1).map Prod.fst =
        (List.range entry.1.methods.length).map (⟨entry.2, ·⟩) := by
    intro entry
    unfold methodsOf
    rw [List.map_map, List.range_eq_range', ← List.zipIdx_map_snd,
      List.map_map]
    rfl
  unfold methodIds methods
  rw [List.map_flatMap]
  simp only [hclass]

theorem strictMethods?_eq (model : ClassModel) :
    model.strictMethods? = some model.methods := by
  unfold strictMethods?
  rw [methodIds_eq]
  refine mapM_eq_some_of_forall₂ (List.forall₂_map_left_iff.mpr ?_)
  refine List.forall₂_same.mpr fun entry hentry => ?_
  rw [mem_methods_iff_method?.mp hentry]
  rfl

end ClassModel

/-! ## Calls, one by one -/

/-- A resolution whose call graph is kept by numbers. -/
structure NumberedResolution where
  graph : NumberedGraph
  found : List SignatureMatch
  unresolved : Nat

namespace NumberedResolution

/-- Resolves one more call; a call that is resolved is linked within the capacity
of the graph. -/
def step? (capacity : Nat) (index : Resolution.Index)
    (resolution : NumberedResolution) (call : MethodId × CallSignature) :
    Option NumberedResolution :=
  match Resolution.resolveCall? index call with
  | none => some { resolution with unresolved := resolution.unresolved + 1 }
  | some (first, found) => do
    let graph ← resolution.graph.linkWithin? capacity found.caller first
    return { resolution with graph, found := resolution.found ++ [found] }

/-- What resolving calls enters into the graph. -/
def entries (index : Resolution.Index)
    (calls : List (MethodId × CallSignature)) : List GraphEntry :=
  (calls.filterMap (Resolution.resolveCall? index)).map fun entry =>
    .call entry.2.caller entry.1

/-- Calls fill the graph with their entries, are listed if they are resolved, and
counted if they are not. -/
theorem foldlM_step? (capacity : Nat) (index : Resolution.Index)
    (calls : List (MethodId × CallSignature))
    (resolution : NumberedResolution) :
    calls.foldlM (step? capacity index) resolution =
      ((entries index calls).foldlM (NumberedGraph.enterWithin? capacity)
        resolution.graph).map fun graph =>
          { graph
            found := resolution.found ++
              (calls.filterMap (Resolution.resolveCall? index)).map Prod.snd
            unresolved := resolution.unresolved + calls.countP fun call =>
              (Resolution.resolveCall? index call).isNone } := by
  unfold entries
  induction calls generalizing resolution with
  | nil => simp
  | cons call calls ih =>
      rw [List.foldlM_cons]
      cases hcall : Resolution.resolveCall? index call with
      | none =>
          have hstep : step? capacity index resolution call =
              some { resolution with
                unresolved := resolution.unresolved + 1 } := by
            simp only [step?, hcall]
          rw [hstep, List.filterMap_cons_none hcall,
            List.countP_cons_of_pos (by simp [hcall])]
          refine (ih _).trans ?_
          simp only [Nat.add_assoc, Nat.add_comm]
      | some entry =>
          have hstep : step? capacity index resolution call =
              (resolution.graph.enterWithin? capacity
                (.call entry.2.caller entry.1)).map fun graph =>
                  { resolution with
                    graph, found := resolution.found ++ [entry.2] } := by
            simp only [step?, hcall]
            exact bind_pure_comp ..
          rw [hstep, List.filterMap_cons_some hcall,
            List.countP_cons_of_neg (by simp [hcall]), List.map_cons,
            List.map_cons, List.foldlM_cons]
          cases resolution.graph.enterWithin? capacity
            (.call entry.2.caller entry.1) with
          | none => rfl
          | some graph =>
              refine (ih _).trans ?_
              simp

end NumberedResolution

/-! ## All calls -/

namespace ClassModel

variable {model : ClassModel} {capacity : Nat}

/-- Resolves the recorded calls of a model with a graph of limited capacity. -/
def strictResolve? (capacity : Nat) (model : ClassModel) :
    Option NumberedResolution := do
  let index ← model.strictIndex?
  let graph ← model.methodIds.foldlM
    (fun graph id => graph.enterWithin? capacity (.method id)) .empty
  let calls ← model.strictRecordedCalls?
  calls.foldlM (NumberedResolution.step? capacity index) ⟨graph, [], 0⟩

theorem strictResolve?_eq_map (capacity : Nat) (model : ClassModel) :
    model.strictResolve? capacity =
      (NumberedGraph.ofHistoryWithin? capacity model.graphHistory).map
        (⟨·, model.resolve.found, model.resolve.unresolved⟩) := by
  have hindex : model.strictIndex? = some (Resolution.index model.methods) := by
    simp [strictIndex?, strictMethods?_eq]
  have hcalls : model.strictRecordedCalls? =
      some (Resolution.recordedCalls model.methods) := by
    simp [strictRecordedCalls?, strictMethods?_eq]
  have hhistory : model.graphHistory =
      model.methodIds.map .method ++ NumberedResolution.entries
        (Resolution.index model.methods)
        (Resolution.recordedCalls model.methods) := by
    rw [methodIds_eq, List.map_map]
    rfl
  unfold strictResolve? NumberedGraph.ofHistoryWithin?
  rw [hindex, hcalls, hhistory, List.foldlM_append, List.foldlM_map]
  simp only [Option.bind_eq_bind, Option.bind_some,
    NumberedResolution.foldlM_step?, Option.map_bind, List.nil_append,
    Nat.zero_add]
  rfl

/-- The number of recorded calls whose signature some class owns. -/
def resolvedCalls (model : ClassModel) : Nat :=
  ((model.classes.flatMap (·.methods)).map fun method =>
    method.calls.toList.countP fun signature =>
      model.classes.any (·.owns signature)).sum

theorem length_found_eq_resolvedCalls (model : ClassModel) :
    model.resolve.found.length = model.resolvedCalls := by
  rw [length_found_resolve, resolvedCalls, ← countP_recordedCalls_eq_sum]

/-- A graph of the capacity has room for the methods of the model and for the
calls that are resolved. -/
structure FitsGraph (model : ClassModel) (capacity : Nat) : Prop where
  methods : model.methodCount ≤ capacity
  calls : model.resolvedCalls ≤ capacity

theorem represents_resolve (model : ClassModel) :
    (NumberedGraph.ofHistory model.graphHistory).Represents
      model.resolve.graph := by
  rw [graph_resolve]
  exact NumberedGraph.represents_ofHistory _

theorem fits_graphHistory_iff :
    (NumberedGraph.ofHistory model.graphHistory).Fits capacity ↔
      model.FitsGraph capacity := by
  have hrepresents := model.represents_resolve
  have hmethods := hrepresents.size_methods
  rw [methodCount_resolve] at hmethods
  have hlinks := hrepresents.length_links
  rw [edgeCount_resolve, length_found_eq_resolvedCalls] at hlinks
  constructor
  · intro h
    exact ⟨hmethods.ge.trans h.methods, hlinks.ge.trans h.links⟩
  · intro h
    exact ⟨hmethods.le.trans h.methods, hlinks.le.trans h.calls⟩

/-- Strict resolution succeeds exactly if the graph has room, and gives what plain
resolution gives. -/
theorem strictResolve?_eq_some_iff {numbered : NumberedResolution} :
    model.strictResolve? capacity = some numbered ↔
      numbered = ⟨.ofHistory model.graphHistory, model.resolve.found,
        model.resolve.unresolved⟩ ∧ model.FitsGraph capacity := by
  rw [strictResolve?_eq_map, Option.map_eq_some_iff, ← fits_graphHistory_iff]
  constructor
  · rintro ⟨graph, hgraph, rfl⟩
    obtain ⟨rfl, hfits⟩ :=
      NumberedGraph.ofHistoryWithin?_eq_some_iff.mp hgraph
    exact ⟨rfl, hfits⟩
  · rintro ⟨rfl, hfits⟩
    exact ⟨_, NumberedGraph.ofHistoryWithin?_eq_some_iff.mpr ⟨rfl, hfits⟩, rfl⟩

end ClassModel

end ModuleRecovery
