import ModuleRecovery.Proofs.Coupling.Edges
import ModuleRecovery.Proofs.Engine.Reachable
import ModuleRecovery.Proofs.Identification.Strict
import ModuleRecovery.Proofs.Resolution.Strict
import ModuleRecovery.Proofs.Score.Order

/-!
# Engines never fail

The strict operations of this module make an engine and answer its questions with
every check that can come up on the way: that there is a class or a method at a
position, that a place in the call graph is that of a method, that a dendrogram
has the shape its readers rely on, and that nothing is taken away from a smaller
number.  They give nothing as soon as one check fails.

Two things can go wrong when an engine is made.  The calls between classes may be
too many to be counted, and the methods or the resolved calls may be too many for
the call graph.  Otherwise an engine is made, and it answers every question as the
plain operations do.
-/

namespace ModuleRecovery

/-! ## Fewer classes, fewer calls -/

namespace ClassModel

variable {model : ClassModel}

theorem crossCalls_retain_le (model : ClassModel)
    (accepts : ClassUnit → Bool) :
    (model.retain accepts).crossCalls ≤ model.crossCalls := by
  have hclasses : (model.retain accepts).classes.Sublist model.classes :=
    List.filter_sublist
  exact ((orderedPairs_sublist hclasses).map _).sum_le_sum (by simp)

/-- The model without its test classes and how many they were, which must not be
more than there are classes. -/
def strictWithoutTests? (model : ClassModel) : Option (ClassModel × Nat) :=
  let kept := model.retain (!·.isTest)
  if kept.size ≤ model.size then some (kept, model.size - kept.size)
  else none

theorem strictWithoutTests?_eq (model : ClassModel) :
    model.strictWithoutTests? = some model.withoutTests := by
  have hsplit : model.size =
      model.classes.countP ClassUnit.isTest +
        (model.retain (!·.isTest)).size := by
    unfold size retain
    rw [← List.countP_eq_length_filter,
      List.length_eq_countP_add_countP ClassUnit.isTest]
    simp
  unfold strictWithoutTests? withoutTests
  rw [if_pos (by omega)]
  congr 2
  omega

/-! ## Calls of the model -/

theorem isSome_label? {id : MethodId} {method : MethodUnit}
    (h : (id, method) ∈ model.methods) : (model.label? id).isSome := by
  obtain ⟨unit, hunit, hmethod⟩ := mem_methods.mp h
  simp [label?, hunit, hmethod]

theorem isSome_name? {id : MethodId} {method : MethodUnit}
    (h : (id, method) ∈ model.methods) :
    (model.name? id.classIndex).isSome := by
  obtain ⟨unit, hunit, -⟩ := mem_methods.mp h
  rw [name?_of_getElem? hunit]
  rfl

/-- What a method calls is a method of the model. -/
theorem isSome_label?_of_mem_callees {caller callee : MethodId}
    (h : callee ∈ model.resolve.graph.callees caller) :
    (model.label? callee).isSome := by
  obtain ⟨edge, hedge, hcallee⟩ := List.mem_filterMap.mp h
  rw [toList_edges_resolve] at hedge
  obtain ⟨call, -, hcall⟩ := List.mem_filterMap.mp hedge
  obtain ⟨first, hfirst, rfl⟩ := Option.map_eq_some_iff.mp hcall
  obtain ⟨⟨id, method⟩, hfind, rfl⟩ := Option.map_eq_some_iff.mp hfirst
  have heq : id = callee := by
    dsimp only at hcallee
    split at hcallee
    · exact Option.some.inj hcallee
    · cases hcallee
  rw [← heq]
  exact isSome_label? (List.mem_of_find?_eq_some hfind)

/-- The names of the caller's class and of the owners are those of classes. -/
theorem isSome_name?_of_mem_found {entry : SignatureMatch}
    (h : entry ∈ model.resolve.found) :
    (model.name? entry.caller.classIndex).isSome ∧
      ∀ owner ∈ entry.owners, (model.name? owner).isSome := by
  rw [found_resolve] at h
  obtain ⟨call, hcall, hentry⟩ := List.mem_filterMap.mp h
  obtain ⟨method, hmethod, -⟩ := mem_recordedCalls.mp hcall
  split at hentry
  · cases hentry
  · cases hentry
    refine ⟨isSome_name? (mem_methods_iff_method?.mpr hmethod), ?_⟩
    intro owner howner
    obtain ⟨unit, hunit, -⟩ := mem_owners.mp howner
    rw [name?_of_getElem? hunit]
    rfl

end ClassModel

/-! ## Making an engine -/

namespace Coupling

/-- The pairs of one resolved call; the names of all classes must be there. -/
def strictPairsFrom? (model : ClassModel) (entry : SignatureMatch) :
    Option (List ClassPair) := do
  let caller ← model.name? entry.caller.classIndex
  (entry.owners.filter (· != entry.caller.classIndex)).mapM fun owner => do
    let owner ← model.name? owner
    return ClassPair.of caller owner

def strictPairsOf? (model : ClassModel) (found : List SignatureMatch) :
    Option (List ClassPair) := do
  let pairs ← found.mapM (strictPairsFrom? model)
  return pairs.flatten

theorem strictPairsFrom?_eq {model : ClassModel} {entry : SignatureMatch}
    (h : entry ∈ model.resolve.found) :
    strictPairsFrom? model entry =
      some ((entry.owners.filter (· != entry.caller.classIndex)).filterMap
        fun owner => do
          let caller ← model.names.toArray[entry.caller.classIndex]?
          let owner ← model.names.toArray[owner]?
          return ClassPair.of caller owner) := by
  obtain ⟨hcaller, howners⟩ := ClassModel.isSome_name?_of_mem_found h
  obtain ⟨caller, hcaller⟩ := Option.isSome_iff_exists.mp hcaller
  have hname : ∀ k, model.names.toArray[k]? = model.name? k := by
    simp [ClassModel.name?]
  unfold strictPairsFrom?
  simp only [hname, hcaller, Option.bind_eq_bind, Option.bind_some]
  refine mapM_eq_some_filterMap fun owner howner => ?_
  obtain ⟨name, hname⟩ :=
    Option.isSome_iff_exists.mp (howners owner (List.mem_filter.mp howner).1)
  simp [hname]

theorem strictPairsOf?_eq (model : ClassModel) :
    strictPairsOf? model model.resolve.found =
      some (pairsOf model model.resolve.found) := by
  unfold strictPairsOf? pairsOf
  rw [mapM_eq_some_map fun _ => strictPairsFrom?_eq]
  simp only [List.flatMap_def]
  rfl

end Coupling

namespace Engine

/-- The classes that are analysed, and the number of those left out. -/
def strictAnalysed? (excludeTests : Bool) (model : ClassModel) :
    Option (ClassModel × Nat) :=
  if excludeTests then model.strictWithoutTests? else some (model, 0)

/-- Makes an engine, together with its call graph as it is kept.  A count or a
graph that does not fit is a failure like any other. -/
def strictOfModel? (capacity : Nat) (path? : Option String)
    (excludeTests : Bool) (model : ClassModel) :
    Option (Engine × NumberedGraph) := do
  let (model, excludedTests) ← strictAnalysed? excludeTests model
  let ⟨kept, found, unresolved⟩ ← model.strictResolve? capacity
  let pairs ← Coupling.strictPairsOf? model found
  let counts ← Coupling.tally? pairs
  let coupling ← Coupling.ofCounts? counts.toList
  let graph ← kept.graph?
  return (⟨path?, excludeTests, excludedTests,
    ⟨model, ⟨graph, found, unresolved⟩, coupling, none⟩⟩, kept)

theorem strictAnalysed?_eq (excludeTests : Bool) (model : ClassModel) :
    strictAnalysed? excludeTests model =
      some (analysed excludeTests model, excluded excludeTests model) := by
  cases excludeTests with
  | false => rfl
  | true => exact model.strictWithoutTests?_eq

theorem crossCalls_analysed_le (excludeTests : Bool) (model : ClassModel) :
    (analysed excludeTests model).crossCalls ≤ model.crossCalls := by
  cases excludeTests with
  | false => exact Nat.le_refl _
  | true => exact model.crossCalls_retain_le _

section Making

variable {capacity : Nat} {model : ClassModel}

/-- An engine is made as long as the calls between classes can be counted and the
call graph has room. -/
theorem exists_strictOfModel? (path? : Option String) (excludeTests : Bool)
    (hcounts : model.crossCalls ≤ maxCount)
    (hroom : (analysed excludeTests model).FitsGraph capacity) :
    ∃ engine graph,
      strictOfModel? capacity path? excludeTests model =
        some (engine, graph) ∧
      ofModel path? excludeTests model = .ok engine ∧
      graph.Represents engine.analysis.resolution.graph := by
  obtain ⟨coupling, hcoupling⟩ := Coupling.exists_ofResolution?_of_le
    ((crossCalls_analysed_le excludeTests model).trans hcounts)
  have hrepresents := (analysed excludeTests model).represents_resolve
  have hresolved := ClassModel.strictResolve?_eq_some_iff.mpr ⟨rfl, hroom⟩
  refine ⟨_, _, ?_, ofModel_of_ofResolution? path? hcoupling, hrepresents⟩
  obtain ⟨counts, hcounted, hmade⟩ := Option.bind_eq_some_iff.mp hcoupling
  unfold strictOfModel?
  simp only [strictAnalysed?_eq, Option.bind_eq_bind, Option.bind_some,
    hresolved, Coupling.strictPairsOf?_eq, hcounted, hmade,
    hrepresents.graph?_eq]
  rfl

theorem strictOfModel?_eq_none (path? : Option String) {excludeTests : Bool}
    (hroom : ¬ (analysed excludeTests model).FitsGraph capacity) :
    strictOfModel? capacity path? excludeTests model = none := by
  have hnone : (analysed excludeTests model).strictResolve? capacity =
      none := by
    refine Option.eq_none_iff_forall_ne_some.mpr fun numbered hresolved => ?_
    exact hroom (ClassModel.strictResolve?_eq_some_iff.mp hresolved).2
  unfold strictOfModel?
  simp only [strictAnalysed?_eq, Option.bind_eq_bind, Option.bind_some, hnone,
    Option.bind_none]

end Making

/-! ## Answering -/

/-- The label of a method and of all methods that it calls, which must be
methods of the model. -/
def strictCalls? (model : ClassModel) (graph : NumberedGraph)
    (id : MethodId) : Option MethodCalls := do
  let label ← model.label? id
  let callees ← graph.callees? id
  let calls ← callees.mapM model.label?
  return ⟨label, calls⟩

def strictCallGraph? (engine : Engine) (graph : NumberedGraph) :
    Option CallGraphReport := do
  let model := engine.analysis.model
  let methods ← model.methodIds.mapM (strictCalls? model graph)
  return ⟨graph.methods.size, graph.links.length, methods⟩

/-- The clustering that is kept, or else a new one. -/
def strictClustering? (engine : Engine) : Option (Clustering Float) :=
  match engine.analysis.kept? with
  | some kept => some kept
  | none => Clustering.strictRun? engine.analysis.coupling
      engine.analysis.model.names.toArray

def strictDendrogram? (clustering : Clustering Float) :
    Option DendrogramReport := do
  let levels ← clustering.dendrogram.levels.mapM
    (·.mapM clustering.strictNames?)
  let steps ← clustering.dendrogram.strictMerges?
  let merges ← steps.mapM fun step => do
    let left ← clustering.strictNames? step.left
    let right ← clustering.strictNames? step.right
    return ⟨step.level, left, right, step.coupling⟩
  return ⟨clustering.classCount, levels, merges⟩

/-- The modules for a value that must lie from zero to one. -/
def strictModules? (clustering : Clustering Float) (value : Float) :
    Option ModulesReport := do
  let found ← clustering.strictIdentify? value
  let modules ← found.mapM fun candidate => do
    let names ← clustering.strictNames? candidate.cluster
    return ⟨names, candidate.internalCoupling⟩
  return ⟨value, clustering.classCount, modules⟩

/-- The answer of an engine, unless a check on the way to it fails.  Its call graph
is read as it is kept. -/
def strictAnswer? (engine : Engine) (graph : NumberedGraph) :
    Query → Option (Except EngineError Report)
  | .health =>
    some (.ok (.health { engine.health with callEdges := graph.links.length }))
  | .callGraph => do
    let report ← engine.strictCallGraph? graph
    return .ok (.callGraph report)
  | .coupling limit? => some (.ok (.coupling (engine.coupling limit?)))
  | .pair a b => some ((engine.pair a b).map .pair)
  | .matrix => some (.ok (.matrix engine.matrix))
  | .dendrogram => do
    let clustering ← engine.strictClustering?
    let report ← strictDendrogram? clustering
    return .ok (.dendrogram report)
  | .modules value =>
    match threshold value with
    | .error error => some (.error error)
    | .ok threshold => do
      let clustering ← engine.strictClustering?
      let report ← strictModules? clustering threshold.value
      return .ok (.modules report)

theorem strictCalls?_eq {model : ClassModel} {graph : NumberedGraph}
    (h : graph.Represents model.resolve.graph) (id : MethodId) :
    strictCalls? model graph id =
      (model.label? id).map fun label =>
        ⟨label, (model.resolve.graph.callees id).filterMap model.label?⟩ := by
  unfold strictCalls?
  rw [h.callees?_eq]
  simp only [Option.bind_eq_bind, Option.bind_some]
  rw [mapM_eq_some_filterMap fun _ => ClassModel.isSome_label?_of_mem_callees]
  cases model.label? id <;> rfl

theorem strictCallGraph?_eq {engine : Engine} {graph : NumberedGraph}
    (h : engine.analysis.Consistent)
    (hgraph : graph.Represents engine.analysis.resolution.graph) :
    engine.strictCallGraph? graph = some engine.callGraph := by
  unfold strictCallGraph? callGraph
  rw [hgraph.size_methods, hgraph.length_links]
  rw [h.resolution] at hgraph ⊢
  have hsome : ∀ id ∈ engine.analysis.model.methodIds,
      (strictCalls? engine.analysis.model graph id).isSome := by
    intro id hid
    rw [ClassModel.methodIds_eq] at hid
    obtain ⟨entry, hentry, rfl⟩ := List.mem_map.mp hid
    rw [strictCalls?_eq hgraph, Option.isSome_map]
    exact ClassModel.isSome_label? hentry
  dsimp only
  rw [mapM_eq_some_filterMap hsome, ClassModel.methodIds_eq,
    List.filterMap_map]
  simp only [Function.comp_def, strictCalls?_eq hgraph]
  rfl

theorem strictClustering?_eq {engine : Engine}
    (h : engine.analysis.Consistent) :
    engine.strictClustering? =
      some (.run engine.analysis.coupling
        engine.analysis.model.names.toArray) := by
  unfold strictClustering?
  cases hkept : engine.analysis.kept? with
  | none => exact Clustering.strictRun?_eq _ _
  | some kept => exact congrArg some (h.kept kept hkept)

theorem strictDendrogram?_eq {clustering : Clustering Float}
    (hmerges : clustering.dendrogram.strictMerges? =
      some clustering.dendrogram.merges) :
    strictDendrogram? clustering = some (dendrogramReport clustering) := by
  have hlevels : ∀ level ∈ clustering.dendrogram.levels,
      level.mapM clustering.strictNames? =
        some (level.map clustering.classNames) := by
    intro level _
    exact mapM_eq_some_map fun cluster _ => clustering.strictNames?_eq cluster
  unfold strictDendrogram? dendrogramReport
  rw [hmerges, mapM_eq_some_map hlevels]
  simp only [Option.bind_eq_bind, Option.bind_some, Clustering.strictNames?_eq,
    Option.pure_def]
  rw [mapM_eq_some_map fun step _ => rfl]
  rfl

theorem strictModules?_eq (coupling : Coupling) (names : Array String)
    (threshold : Threshold Float) :
    strictModules? (.run coupling names) threshold.value =
      some (modulesReport (.run coupling names) threshold) := by
  unfold strictModules? modulesReport
  rw [Clustering.strictIdentify?_eq]
  simp only [Option.bind_eq_bind, Option.bind_some, Clustering.strictNames?_eq,
    Option.pure_def]
  rw [mapM_eq_some_map fun candidate _ => rfl]
  rfl

/-! ## Thresholds -/

open Float.Model in
theorem isFinite_of_inUnitInterval {value : Float}
    (h : inUnitInterval value = true) : value.isFinite = true := by
  unfold inUnitInterval at h
  rw [Bool.and_eq_true, Double.score_le_iff, Double.score_le_iff] at h
  obtain ⟨hlow, hhigh⟩ := h
  change value.toModel.unpack.isFinite = true
  cases hvalue : value.toModel.unpack with
  | zero s => rfl
  | finite s m e hm => rfl
  | notANumber =>
      rw [hvalue] at hhigh
      cases hhigh
  | infinity s =>
      rw [hvalue] at hlow hhigh
      revert hlow hhigh
      cases s <;> decide

/-- The thresholds that are accepted are the numbers from zero to one. -/
theorem exists_threshold_eq_ok_iff (value : Float) :
    (∃ accepted, threshold value = .ok accepted) ↔
      inUnitInterval value = true := by
  constructor
  · rintro ⟨accepted, haccepted⟩
    unfold threshold Threshold.ofValue? at haccepted
    by_cases hunit : inUnitInterval value = true
    · exact hunit
    · simp [hunit] at haccepted
  · intro hunit
    refine ⟨⟨value, hunit⟩, ?_⟩
    simp [threshold, Threshold.ofValue?, hunit,
      isFinite_of_inUnitInterval hunit]

/-! ## Every question -/

theorem strictAnswer?_eq {engine : Engine} {graph : NumberedGraph}
    (h : engine.analysis.Consistent)
    (hgraph : graph.Represents engine.analysis.resolution.graph)
    (query : Query) :
    engine.strictAnswer? graph query = some (engine.answer query) := by
  have hclustering : engine.clustering.2 =
      .run engine.analysis.coupling engine.analysis.model.names.toArray :=
    h.clustering_eq
  cases query with
  | health =>
      unfold strictAnswer?
      rw [hgraph.length_links]
      rfl
  | coupling limit? => rfl
  | pair a b => rfl
  | matrix => rfl
  | callGraph =>
      unfold strictAnswer?
      rw [strictCallGraph?_eq h hgraph]
      rfl
  | dendrogram =>
      have hanswer : engine.answer .dendrogram =
          .ok (.dendrogram (dendrogramReport engine.clustering.2)) := rfl
      have hreport : strictDendrogram? engine.clustering.2 =
          some (dendrogramReport engine.clustering.2) := by
        rw [hclustering]
        exact strictDendrogram?_eq (Dendrogram.strictMerges?_eq _ _)
      unfold strictAnswer?
      rw [strictClustering?_eq h, hanswer, ← hclustering]
      simp only [Option.bind_eq_bind, Option.bind_some, hreport]
      rfl
  | modules value =>
      cases hvalue : threshold value with
      | error error => simp [strictAnswer?, answer, ask, modules, hvalue,
          Except.map]
      | ok accepted =>
          have hanswer : engine.answer (.modules value) =
              .ok (.modules (modulesReport engine.clustering.2 accepted)) := by
            simp [answer, ask, modules, hvalue, Except.map]
          rw [hanswer, hclustering]
          simp only [strictAnswer?, hvalue, strictClustering?_eq h,
            Option.bind_eq_bind, Option.bind_some, strictModules?_eq]
          rfl

/-- Answering leaves the call graph alone. -/
theorem resolution_ask (engine : Engine) (query : Query) :
    (engine.ask query).1.analysis.resolution = engine.analysis.resolution := by
  rcases continues_ask engine query with hsame | hmade
  · rw [hsame]
  · rw [hmade]
    exact engine.analysis.resolution_clustering

/-- An engine is made of every model whose calls can be counted, whether or not
test classes are left out, as long as the call graph has room for the methods and
the resolved calls of the others; without the room it is not made.  An engine
answers every question at any time without a check that fails, and only numbers
from zero to one are taken for thresholds. -/
theorem checks_never_fail (capacity : Nat) :
    (∀ path? excludeTests model, model.crossCalls ≤ maxCount →
      (analysed excludeTests model).FitsGraph capacity →
      ∃ engine graph,
        strictOfModel? capacity path? excludeTests model =
          some (engine, graph) ∧
        ofModel path? excludeTests model = .ok engine ∧ engine.Reachable ∧
        graph.Represents engine.analysis.resolution.graph) ∧
    (∀ path? excludeTests model,
      ¬ (analysed excludeTests model).FitsGraph capacity →
      strictOfModel? capacity path? excludeTests model = none) ∧
    (∀ engine graph query, Reachable engine →
      graph.Represents engine.analysis.resolution.graph →
      engine.strictAnswer? graph query = some (engine.answer query) ∧
        graph.Represents (engine.ask query).1.analysis.resolution.graph) ∧
    ∀ value, (∃ accepted, threshold value = .ok accepted) ↔
      inUnitInterval value = true := by
  refine ⟨?_, ?_, ?_, exists_threshold_eq_ok_iff⟩
  · intro path? excludeTests model hcounts hroom
    obtain ⟨engine, graph, hstrict, hmade, hgraph⟩ :=
      exists_strictOfModel? path? excludeTests hcounts hroom
    exact ⟨engine, graph, hstrict, hmade, .made hmade, hgraph⟩
  · intro path? excludeTests model hroom
    exact strictOfModel?_eq_none path? hroom
  · intro engine graph query hreachable hgraph
    refine ⟨strictAnswer?_eq hreachable.consistent hgraph query, ?_⟩
    rw [resolution_ask]
    exact hgraph

/-- A test class calls the only other class and is left out, so one class is
clustered; a threshold that is not a number is refused.  The places of the graph
are numbered in 32 bits, and the last number is not given. -/
theorem checks_never_fail_test_class :
    let runs : MethodUnit := ⟨"run", 0, 0, ∅⟩
    let calls : MethodUnit := ⟨"t", 0, 0, (∅ : CallSet).insert ⟨"run", 0⟩⟩
    let model := ClassModel.ofClasses
      [⟨"A", "", 0, [runs]⟩, ⟨"ATest", "", 0, [calls]⟩]
    let capacity := 2 ^ 32 - 1
    let undefined : Float := 0.0 / 0.0
    model.crossCalls = 1 ∧ (analysed true model).FitsGraph capacity ∧
    strictOfModel? 1 none false model = none ∧
    (¬ ∃ accepted, threshold undefined = .ok accepted) ∧
    ∃ engine graph,
      strictOfModel? capacity none true model = some (engine, graph) ∧
      ofModel none true model = .ok engine ∧ engine.Reachable ∧
      engine.strictAnswer? graph .callGraph =
        some (engine.answer .callGraph) ∧
      engine.strictAnswer? graph .dendrogram =
        some (engine.answer .dendrogram) ∧
      engine.strictAnswer? graph (.modules undefined) =
        some (engine.answer (.modules undefined)) := by
  intro runs calls model capacity undefined
  have hcalls : model.crossCalls = 1 := by decide
  have hroom : (analysed true model).FitsGraph capacity :=
    ⟨by decide, by decide⟩
  have htwo : ¬ (analysed false model).FitsGraph 1 :=
    fun h => absurd h.methods (by decide)
  have hundefined : ¬ inUnitInterval undefined = true := by decide
  obtain ⟨hmake, -, hanswer, hthreshold⟩ := checks_never_fail capacity
  obtain ⟨engine, graph, hstrict, hmade, hreachable, hgraph⟩ :=
    hmake none true model (by rw [hcalls]; decide) hroom
  refine ⟨hcalls, hroom, (checks_never_fail 1).2.1 none false model htwo, ?_,
    engine, graph, hstrict, hmade, hreachable,
    (hanswer engine graph _ hreachable hgraph).1,
    (hanswer engine graph _ hreachable hgraph).1,
    (hanswer engine graph _ hreachable hgraph).1⟩
  rw [hthreshold]
  exact hundefined

end Engine

end ModuleRecovery
