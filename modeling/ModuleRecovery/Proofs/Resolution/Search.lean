import ModuleRecovery.Proofs.CallGraph.History
import ModuleRecovery.Proofs.Resolution.Owners

/-!
# Resolution by search

Calls are resolved through an index of signatures, and the call graph makes a
node when a method is mentioned for the first time.  The outcome is that of a
plain search without either.  The methods stand in the order of classes and of
declaration, and so do the recorded calls, those of one method in the order of
signatures.  A call is looked for among all methods: if some of them carry its
signature, the call is matched with their classes and linked to the first of
them, and otherwise it is left unresolved.  The methods enter the graph before
any call does, so the node of a method is its place in the order.
-/

namespace ModuleRecovery

/-- The first method stands in an earlier class, or earlier in the same class. -/
def MethodId.Before (a b : MethodId) : Prop :=
  a.classIndex < b.classIndex ∨
    a.classIndex = b.classIndex ∧ a.methodIndex < b.methodIndex

theorem MethodId.Before.ne {a b : MethodId} (h : a.Before b) : a ≠ b := by
  rintro rfl
  unfold Before at h
  omega

namespace ClassModel

variable {model : ClassModel} {id : MethodId} {method : MethodUnit}
  {signature : CallSignature}

/-! ## Methods and recorded calls in their order -/

/-- The method at the position has the signature. -/
def Carries (model : ClassModel) (id : MethodId)
    (signature : CallSignature) : Prop :=
  ∃ method, model.method? id = some method ∧ method.signature = signature

/-- The method at the position records a call of the signature. -/
def Calls (model : ClassModel) (id : MethodId)
    (signature : CallSignature) : Prop :=
  ∃ method, model.method? id = some method ∧ signature ∈ method.calls

/-- The number of methods that stand before a method. -/
def place (model : ClassModel) (id : MethodId) : Nat :=
  ((model.classes.take id.classIndex).map (·.methods.length)).sum +
    id.methodIndex

theorem mem_methods_iff_method? :
    (id, method) ∈ model.methods ↔ model.method? id = some method := by
  rw [mem_methods]
  exact Option.bind_eq_some_iff.symm

theorem pairwise_methods (model : ClassModel) :
    model.methods.Pairwise fun a b => a.1.Before b.1 := by
  unfold methods
  rw [List.pairwise_flatMap]
  constructor
  · rintro ⟨unit, k⟩ -
    apply List.pairwise_map.mpr
    exact (pairwise_zipIdx unit.methods).imp fun h => .inr ⟨rfl, h⟩
  · refine (pairwise_zipIdx model.classes).imp ?_
    intro first second hlt a ha b hb
    obtain ⟨_, -, rfl⟩ := List.mem_map.mp ha
    obtain ⟨_, -, rfl⟩ := List.mem_map.mp hb
    exact .inl hlt

theorem nodup_map_fst_methods (model : ClassModel) :
    (model.methods.map Prod.fst).Nodup :=
  List.pairwise_map.mpr (model.pairwise_methods.imp MethodId.Before.ne)

theorem map_snd_methods (model : ClassModel) :
    model.methods.map Prod.snd = model.classes.flatMap (·.methods) := by
  have hclass : ∀ entry : ClassUnit × Nat,
      (methodsOf entry.2 entry.1).map Prod.snd = entry.1.methods := by
    intro entry
    unfold methodsOf
    rw [List.map_map]
    exact List.zipIdx_map_fst 0 _
  unfold methods
  rw [List.map_flatMap]
  simp only [hclass]
  rw [← List.flatMap_map Prod.fst (fun unit : ClassUnit => unit.methods),
    List.zipIdx_map_fst]

theorem getElem?_methods_place (h : model.method? id = some method) :
    model.methods[model.place id]? = some (id, method) := by
  obtain ⟨unit, hunit, hmethod⟩ := Option.bind_eq_some_iff.mp h
  have hentry : model.classes.zipIdx[id.classIndex]? =
      some (unit, id.classIndex) := by
    simp [List.getElem?_zipIdx, hunit]
  have hfound : (methodsOf id.classIndex unit)[id.methodIndex]? =
      some (id, method) := by
    simp [methodsOf, List.getElem?_zipIdx, hmethod]
  have hplace := getElem?_flatMap_of_getElem?
    (f := fun entry : ClassUnit × Nat => methodsOf entry.2 entry.1)
    hentry hfound
  have hlengths : (model.classes.zipIdx.take id.classIndex).map
      (fun entry => (methodsOf entry.2 entry.1).length) =
        (model.classes.take id.classIndex).map (·.methods.length) := by
    conv_rhs => rw [← List.zipIdx_map_fst 0 model.classes]
    rw [← List.map_take, List.map_map]
    simp [methodsOf, Function.comp_def]
  rw [hlengths] at hplace
  exact hplace

theorem mem_recordedCalls :
    (id, signature) ∈ Resolution.recordedCalls model.methods ↔
      model.Calls id signature := by
  unfold Resolution.recordedCalls Calls
  simp only [List.mem_flatMap, List.mem_map, Prod.exists, Prod.mk.injEq,
    mem_methods_iff_method?, Std.ExtTreeSet.mem_toList]
  constructor
  · rintro ⟨_, method, hmethod, _, hcall, rfl, rfl⟩
    exact ⟨method, hmethod, hcall⟩
  · rintro ⟨method, hmethod, hcall⟩
    exact ⟨id, method, hmethod, signature, hcall, rfl, rfl⟩

/-- The first call is recorded by an earlier method, or by the same method and has
the smaller signature. -/
def CallBefore (a b : MethodId × CallSignature) : Prop :=
  a.1.Before b.1 ∨ a.1 = b.1 ∧ compare a.2 b.2 = .lt

theorem pairwise_recordedCalls (model : ClassModel) :
    (Resolution.recordedCalls model.methods).Pairwise CallBefore := by
  unfold Resolution.recordedCalls
  rw [List.pairwise_flatMap]
  constructor
  · rintro ⟨id, method⟩ -
    apply List.pairwise_map.mpr
    exact Std.ExtTreeSet.ordered_toList.imp fun h => .inr ⟨rfl, h⟩
  · refine model.pairwise_methods.imp ?_
    intro first second hbefore a ha b hb
    obtain ⟨_, -, rfl⟩ := List.mem_map.mp ha
    obtain ⟨_, -, rfl⟩ := List.mem_map.mp hb
    exact .inl hbefore

theorem countP_recordedCalls_eq_sum (model : ClassModel)
    (p : CallSignature → Bool) :
    (Resolution.recordedCalls model.methods).countP (fun call => p call.2) =
      ((model.classes.flatMap (·.methods)).map fun method =>
        method.calls.toList.countP p).sum := by
  unfold Resolution.recordedCalls
  rw [List.countP_flatMap, ← map_snd_methods, List.map_map]
  simp [Function.comp_def, List.countP_map]

/-! ## The methods that carry a signature -/

theorem mem_owners_iff_carries {k : Nat} :
    k ∈ model.owners signature ↔ ∃ n, model.Carries ⟨k, n⟩ signature := by
  rw [mem_owners]
  unfold ClassUnit.owns
  constructor
  · rintro ⟨unit, hunit, howns⟩
    obtain ⟨method, hmem, hsignature⟩ := List.any_eq_true.mp howns
    obtain ⟨n, hmethod⟩ := List.mem_iff_getElem?.mp hmem
    exact ⟨n, method, Option.bind_eq_some_iff.mpr ⟨unit, hunit, hmethod⟩,
      beq_iff_eq.mp hsignature⟩
  · rintro ⟨n, method, hmethod, hsignature⟩
    obtain ⟨unit, hunit, hmethod⟩ := Option.bind_eq_some_iff.mp hmethod
    exact ⟨unit, hunit, List.any_eq_true.mpr
      ⟨method, List.mem_of_getElem? hmethod, beq_iff_eq.mpr hsignature⟩⟩

theorem owners_ne_nil_iff :
    model.owners signature ≠ [] ↔ ∃ id, model.Carries id signature := by
  constructor
  · intro hne
    obtain ⟨k, hk⟩ := List.exists_mem_of_ne_nil _ hne
    obtain ⟨n, hcarries⟩ := mem_owners_iff_carries.mp hk
    exact ⟨⟨k, n⟩, hcarries⟩
  · rintro ⟨id, hcarries⟩
    exact List.ne_nil_of_mem
      (mem_owners_iff_carries.mpr ⟨id.methodIndex, hcarries⟩)

theorem owners_eq_nil_iff_any :
    model.owners signature = [] ↔
      model.classes.any (·.owns signature) = false := by
  rw [List.any_eq_false, List.eq_nil_iff_forall_not_mem]
  constructor
  · intro h unit hunit howns
    obtain ⟨k, hk⟩ := List.mem_iff_getElem?.mp hunit
    exact h k (mem_owners.mpr ⟨unit, hk, howns⟩)
  · intro h k hk
    obtain ⟨unit, hunit, howns⟩ := mem_owners.mp hk
    exact h unit (List.mem_of_getElem? hunit) howns

theorem pairwise_owners (model : ClassModel) (signature : CallSignature) :
    (model.owners signature).Pairwise (· < ·) := by
  have hle : (model.owners signature).Pairwise (· ≤ ·) := by
    refine List.Pairwise.sublist (eraseDups_sublist _) ?_
    apply List.pairwise_map.mpr
    refine (model.pairwise_methods.filter _).imp ?_
    rintro a b (hlt | ⟨heq, -⟩)
    · exact hlt.le
    · exact heq.le
  exact (hle.and (model.nodup_owners signature)).imp fun h =>
    lt_of_le_of_ne h.1 h.2

/-- The method carries the signature and stands before all others that do. -/
structure FirstCarrier (model : ClassModel) (signature : CallSignature)
    (id : MethodId) : Prop where
  carries : model.Carries id signature
  first : ∀ other, model.Carries other signature →
    other = id ∨ id.Before other

def firstCarrier? (model : ClassModel) (signature : CallSignature) :
    Option MethodId :=
  (model.methods.find? (·.2.signature == signature)).map Prod.fst

theorem head?_owners (model : ClassModel) (signature : CallSignature) :
    (model.owners signature).head? =
      (model.firstCarrier? signature).map MethodId.classIndex := by
  unfold owners firstCarrier?
  rw [head?_eraseDups, List.head?_map, List.head?_filter, Option.map_map]
  rfl

theorem firstCarrier_of_firstCarrier?
    (h : model.firstCarrier? signature = some id) :
    model.FirstCarrier signature id := by
  obtain ⟨⟨_, method⟩, hfind, rfl⟩ := Option.map_eq_some_iff.mp h
  obtain ⟨hsignature, before, after, hsplit, hbefore⟩ :=
    List.find?_eq_some_iff_append.mp hfind
  constructor
  · exact ⟨method, mem_methods_iff_method?.mp
      (List.mem_of_find?_eq_some hfind), beq_iff_eq.mp hsignature⟩
  · rintro other ⟨unit, hunit, hother⟩
    have hmem := mem_methods_iff_method?.mpr hunit
    have hsorted := model.pairwise_methods
    rw [hsplit] at hmem hsorted
    -- no earlier method carries the signature, and all later ones stand behind
    rcases List.mem_append.mp hmem with hmem | hmem
    · have hno := hbefore _ hmem
      simp [hother] at hno
    · rcases List.mem_cons.mp hmem with heq | hmem
      · exact .inl (congrArg Prod.fst heq)
      · have hlater := (List.pairwise_append.mp hsorted).2.1
        exact .inr ((List.pairwise_cons.mp hlater).1 _ hmem)

theorem owns_of_firstCarrier? {signature : CallSignature} {id : MethodId}
    (h : model.firstCarrier? signature = some id) :
    ∃ unit, model.classes[id.classIndex]? = some unit ∧
      unit.owns signature := by
  have hcarries := (firstCarrier_of_firstCarrier? h).carries
  exact mem_owners.mp (mem_owners_iff_carries.mpr ⟨_, hcarries⟩)

theorem exists_firstCarrier? {j : Nat} {b : ClassUnit}
    {signature : CallSignature} (hj : model.classes[j]? = some b)
    (howns : b.owns signature) :
    ∃ id, model.firstCarrier? signature = some id := by
  have howner := mem_owners.mpr ⟨b, hj, howns⟩
  have hhead := model.head?_owners signature
  cases hfirst : model.firstCarrier? signature with
  | none =>
      rw [hfirst, Option.map_none, List.head?_eq_none_iff] at hhead
      rw [hhead] at howner
      cases howner
  | some id => exact ⟨id, rfl⟩

end ClassModel

/-! ## The call graph -/

namespace ClassModel

variable {model : ClassModel}

/-- What resolving enters into the graph: all methods, then the resolved calls. -/
def graphHistory (model : ClassModel) : List GraphEntry :=
  model.methods.map (fun entry => .method entry.1) ++
    ((Resolution.recordedCalls model.methods).filterMap
      (Resolution.resolveCall? (Resolution.index model.methods))).map
        fun entry => .call entry.2.caller entry.1

theorem graph_resolve (model : ClassModel) :
    model.resolve.graph = .ofHistory model.graphHistory := by
  unfold graphHistory CallGraph.ofHistory
  rw [List.foldl_append, List.foldl_map, List.foldl_map]
  rfl

theorem toList_edges_resolve_eq_map (model : ClassModel) :
    model.resolve.graph.edges.toList =
      ((Resolution.recordedCalls model.methods).filterMap
        (Resolution.resolveCall? (Resolution.index model.methods))).map
          fun entry => (entry.2.caller, entry.1) := by
  have hmethod : ∀ entry : MethodId × MethodUnit,
      GraphEntry.edge? (.method entry.1) = none := fun _ => rfl
  have hcall : ∀ entry : MethodId × SignatureMatch,
      GraphEntry.edge? (.call entry.2.caller entry.1) =
        some (entry.2.caller, entry.1) := fun _ => rfl
  rw [graph_resolve, CallGraph.toList_edges_ofHistory, graphHistory]
  simp [List.filterMap_map, hmethod, hcall]

/-- The edges are those from the caller of each call to the first method that
carries its signature. -/
theorem toList_edges_resolve (model : ClassModel) :
    model.resolve.graph.edges.toList =
      (Resolution.recordedCalls model.methods).filterMap fun call =>
        (model.firstCarrier? call.2).map (call.1, ·) := by
  have hcall : ∀ call : MethodId × CallSignature,
      (Resolution.resolveCall? (Resolution.index model.methods) call).map
          (fun entry => (entry.2.caller, entry.1)) =
        (model.firstCarrier? call.2).map (call.1, ·) := by
    intro call
    unfold firstCarrier? Resolution.resolveCall?
    rw [← List.head?_filter, ← List.head?_map, ← Resolution.getD_index]
    cases (Resolution.index model.methods).getD call.2 [] <;> rfl
  rw [toList_edges_resolve_eq_map, List.map_filterMap]
  simp only [hcall]

theorem mem_methods_of_resolveCall? {call : MethodId × CallSignature}
    {entry : MethodId × SignatureMatch}
    (h : Resolution.resolveCall? (Resolution.index model.methods) call =
      some entry) :
    entry.2.caller = call.1 ∧ entry.1 ∈ model.methods.map Prod.fst := by
  unfold Resolution.resolveCall? at h
  rw [Resolution.getD_index] at h
  split at h
  · cases h
  · rename_i first more hfound
    cases h
    have hfirst : first ∈ (model.methods.filter
        (·.2.signature == call.2)).map Prod.fst := by
      rw [hfound]
      exact List.mem_cons_self
    exact ⟨rfl, (List.filter_sublist.map Prod.fst).subset hfirst⟩

/-- The nodes are the methods of the model in their order. -/
theorem toList_nodes_resolve (model : ClassModel) :
    model.resolve.graph.nodes.toList = model.methods.map Prod.fst := by
  let resolved := (Resolution.recordedCalls model.methods).filterMap
    (Resolution.resolveCall? (Resolution.index model.methods))
  have hmentioned : GraphEntry.mentioned model.graphHistory =
      model.methods.map Prod.fst ++
        resolved.flatMap fun entry => [entry.2.caller, entry.1] := by
    simp [GraphEntry.mentioned, graphHistory, GraphEntry.mentions,
      List.flatMap_map, resolved, ← List.map_eq_flatMap]
  -- calls mention methods only that have been entered
  have hnothing : (resolved.flatMap fun entry =>
      [entry.2.caller, entry.1]).removeAll (model.methods.map Prod.fst) =
        [] := by
    rw [List.removeAll, List.filter_eq_nil_iff]
    intro id hid
    obtain ⟨entry, hentry, hid⟩ := List.mem_flatMap.mp hid
    obtain ⟨call, hcall, hentry⟩ := List.mem_filterMap.mp hentry
    obtain ⟨hcaller, hcallee⟩ := mem_methods_of_resolveCall? hentry
    obtain ⟨method, hmethod, -⟩ := mem_recordedCalls.mp hcall
    have hmem := List.mem_map_of_mem (f := Prod.fst)
      (mem_methods_iff_method?.mpr hmethod)
    rw [← hcaller] at hmem
    rcases List.mem_pair.mp hid with rfl | rfl
    · simpa using hmem
    · simpa using hcallee
  rw [graph_resolve, CallGraph.toList_nodes_ofHistory, hmentioned,
    List.eraseDups_append, hnothing,
    eraseDups_of_nodup model.nodup_map_fst_methods]
  simp

theorem methodCount_resolve (model : ClassModel) :
    model.resolve.graph.methodCount = model.methodCount := by
  unfold CallGraph.methodCount methodCount
  rw [← Array.length_toList, toList_nodes_resolve, ← map_snd_methods,
    List.length_map, List.length_map]

theorem node?_resolve (model : ClassModel) (id : MethodId) :
    model.resolve.graph.node? id =
      (model.method? id).map fun _ => model.place id := by
  have hnodes : model.resolve.graph.nodes =
      (model.methods.map Prod.fst).toArray := by
    rw [← toList_nodes_resolve, Array.toArray_toList]
  unfold CallGraph.node?
  rw [hnodes, List.idxOf?_toArray]
  cases hmethod : model.method? id with
  | none =>
      rw [Option.map_none, List.idxOf?_eq_none_iff]
      intro hmem
      obtain ⟨⟨_, method⟩, hentry, rfl⟩ := List.mem_map.mp hmem
      rw [mem_methods_iff_method?.mp hentry] at hmethod
      cases hmethod
  | some method =>
      apply idxOf?_eq_some_of_nodup model.nodup_map_fst_methods
      rw [List.getElem?_map, getElem?_methods_place hmethod]
      rfl

/-! ## Matches, links and the calls left over -/

theorem mem_found_resolve_iff {found : SignatureMatch} :
    found ∈ model.resolve.found ↔
      model.Calls found.caller found.signature ∧
        model.owners found.signature ≠ [] ∧
        found.owners = model.owners found.signature := by
  rw [found_resolve, List.mem_filterMap]
  constructor
  · rintro ⟨call, hcall, hfound⟩
    split at hfound
    · cases hfound
    · rename_i howners
      cases hfound
      exact ⟨mem_recordedCalls.mp hcall, howners, rfl⟩
  · rintro ⟨hcall, howners, heq⟩
    refine ⟨(found.caller, found.signature), mem_recordedCalls.mpr hcall, ?_⟩
    rw [if_neg howners, ← heq]

theorem pairwise_found_resolve (model : ClassModel) :
    model.resolve.found.Pairwise fun a b =>
      CallBefore (a.caller, a.signature) (b.caller, b.signature) := by
  rw [found_resolve]
  refine model.pairwise_recordedCalls.filterMap _ ?_
  intro a b hab found hfound other hother
  split at hfound
  · cases hfound
  · split at hother
    · cases hother
    · cases hfound
      cases hother
      exact hab

theorem length_found_resolve (model : ClassModel) :
    model.resolve.found.length =
      (Resolution.recordedCalls model.methods).countP fun call =>
        model.classes.any (·.owns call.2) := by
  rw [found_resolve, List.length_filterMap_eq_countP]
  apply List.countP_congr
  intro call _
  by_cases howners : model.owners call.2 = []
  · simp [howners, owners_eq_nil_iff_any.mp howners]
  · simp [howners, Bool.eq_true_of_not_eq_false
      (mt owners_eq_nil_iff_any.mpr howners)]

theorem edgeCount_resolve (model : ClassModel) :
    model.resolve.graph.edgeCount = model.resolve.found.length := by
  unfold CallGraph.edgeCount
  rw [← Array.length_toList, toList_edges_resolve_eq_map, List.length_map]
  exact (List.length_map _).symm

theorem unresolved_resolve (model : ClassModel) :
    model.resolve.unresolved =
      (Resolution.recordedCalls model.methods).countP fun call =>
        !model.classes.any (·.owns call.2) := by
  apply List.countP_congr
  intro call _
  have hmatch := model.map_snd_resolveCall? call
  by_cases howners : model.owners call.2 = []
  · rw [if_pos howners, Option.map_eq_none_iff] at hmatch
    simp [hmatch, owners_eq_nil_iff_any.mp howners]
  · rw [if_neg howners] at hmatch
    have hsome := Bool.eq_true_of_not_eq_false
      (mt owners_eq_nil_iff_any.mpr howners)
    obtain ⟨entry, hentry, -⟩ := Option.map_eq_some_iff.mp hmatch
    simp [hentry, hsome]

theorem length_found_add_unresolved (model : ClassModel) :
    model.resolve.found.length + model.resolve.unresolved =
      ((model.classes.flatMap (·.methods)).map (·.calls.size)).sum := by
  have hsplit := List.length_eq_countP_add_countP
    (fun call => model.classes.any (·.owns call.2))
    (l := Resolution.recordedCalls model.methods)
  have hall := model.countP_recordedCalls_eq_sum fun _ => true
  simp only [decide_not, Bool.decide_eq_true] at hsplit
  simp only [List.countP_true, Std.ExtTreeSet.length_toList] at hall
  rw [length_found_resolve, unresolved_resolve, ← hsplit, hall]

/-- Each match of a caller goes with one of its callees, in the same order. -/
theorem forall₂_callees (model : ClassModel) (id : MethodId)
    (calls : List (MethodId × CallSignature)) :
    List.Forall₂ (fun found callee =>
        model.firstCarrier? found.signature = some callee ∧
          found.owners = model.owners found.signature)
      ((calls.filterMap fun call =>
        if model.owners call.2 = [] then none
        else some (⟨call.1, call.2, model.owners call.2⟩ :
          SignatureMatch)).filter fun found => found.caller = id)
      ((calls.filterMap fun call =>
        (model.firstCarrier? call.2).map (call.1, ·)).filterMap fun edge =>
          if edge.1 = id then some edge.2 else none) := by
  induction calls with
  | nil => exact .nil
  | cons call calls ih =>
      have hhead := model.head?_owners call.2
      cases hfirst : model.firstCarrier? call.2 with
      | none =>
          rw [hfirst, Option.map_none, List.head?_eq_none_iff] at hhead
          simpa [hfirst, hhead] using ih
      | some first =>
          have howners : model.owners call.2 ≠ [] := by
            intro hnil
            simp [hnil, hfirst] at hhead
          by_cases hcaller : call.1 = id
          · simpa [hfirst, howners, hcaller] using ih
          · simpa [hfirst, howners, hcaller] using ih

/-- The resolution that a plain search of all methods gives. -/
structure ResolvedBySearch (model : ClassModel) (resolution : Resolution) :
    Prop where
  /-- There is a match for each recorded call whose signature some method carries,
  with the classes of all such methods as its owners. -/
  found : ∀ entry, entry ∈ resolution.found ↔
    model.Calls entry.caller entry.signature ∧
      (∃ id, model.Carries id entry.signature) ∧
      entry.owners.Pairwise (· < ·) ∧
      ∀ k, k ∈ entry.owners ↔ ∃ n, model.Carries ⟨k, n⟩ entry.signature
  owned : ∀ entry ∈ resolution.found, entry.owners ≠ []
  /-- Each match is listed once, in the order of the recorded calls. -/
  ordered : resolution.found.Pairwise fun a b =>
    a.caller.Before b.caller ∨
      a.caller = b.caller ∧ compare a.signature b.signature = .lt
  /-- The other calls are counted. -/
  unresolved : resolution.unresolved =
    ((model.classes.flatMap (·.methods)).map fun method =>
      method.calls.toList.countP fun signature =>
        !model.classes.any (·.owns signature)).sum
  total : resolution.found.length + resolution.unresolved =
    ((model.classes.flatMap (·.methods)).map (·.calls.size)).sum
  edgeCount : resolution.graph.edgeCount = resolution.found.length
  /-- The callees of a method answer to its matches, one by one. -/
  callees : ∀ id, List.Forall₂ (fun entry callee =>
      model.FirstCarrier entry.signature callee ∧
        entry.owners.head? = some callee.classIndex)
    (resolution.found.filter fun entry => entry.caller = id)
    (resolution.graph.callees id)
  /-- The methods are the nodes, each at its place. -/
  nodes : ∀ id, resolution.graph.node? id =
    (model.method? id).map fun _ => model.place id
  nodeCount : resolution.graph.methodCount = model.methodCount

theorem resolve_by_search (model : ClassModel) :
    model.ResolvedBySearch model.resolve := by
  constructor
  · intro entry
    rw [mem_found_resolve_iff, owners_ne_nil_iff]
    refine and_congr_right fun _ => and_congr_right fun _ => ?_
    constructor
    · intro heq
      rw [heq]
      exact ⟨model.pairwise_owners _, fun k => mem_owners_iff_carries⟩
    · rintro ⟨hsorted, hmem⟩
      apply hsorted.eq_of_mem_iff (model.pairwise_owners _)
      intro k
      rw [hmem, mem_owners_iff_carries]
  · intro entry hentry
    obtain ⟨-, hne, heq⟩ := mem_found_resolve_iff.mp hentry
    rwa [heq]
  · exact model.pairwise_found_resolve
  · rw [unresolved_resolve, ← countP_recordedCalls_eq_sum]
  · exact model.length_found_add_unresolved
  · exact model.edgeCount_resolve
  · intro id
    have hcallees := model.forall₂_callees id
      (Resolution.recordedCalls model.methods)
    rw [← toList_edges_resolve, ← found_resolve] at hcallees
    refine hcallees.imp ?_
    rintro entry callee ⟨hfirst, howners⟩
    refine ⟨firstCarrier_of_firstCarrier? hfirst, ?_⟩
    rw [howners, head?_owners, hfirst]
    rfl
  · exact model.node?_resolve
  · exact model.methodCount_resolve

end ClassModel

end ModuleRecovery
