import ModuleRecovery.Proofs.CallGraph.History
import Mathlib.Data.List.Forall2
import Std.Data.HashMap.Lemmas

/-!
# Call graphs kept by numbers

A call graph can be kept as an array of methods, a map from the methods to their
places in the array, and links from place to place, the latest link first.  The
array and the map are filled by the same step and stay inverse to each other, also
when a call enters a method without saying so or links a method to itself.  Links
keep their meaning, since places are never given to another method.

Reading the callees of a method then takes three turns: its place from the map,
the places it is linked to, and the methods at these places in reverse order.
Each of them succeeds, and they give the callees in the order of the calls.
-/

namespace ModuleRecovery

open GraphEntry

/-- Methods by place, places by method, and links between places, the latest link
first. -/
structure NumberedGraph where
  methods : Array MethodId
  numbers : Std.HashMap MethodId Nat
  links : List (Nat × Nat)

namespace NumberedGraph

def empty : NumberedGraph :=
  ⟨#[], ∅, []⟩

/-- The place of a method, at the end of the array if the method is new. -/
def place (graph : NumberedGraph) (id : MethodId) : NumberedGraph × Nat :=
  match graph.numbers[id]? with
  | some number => (graph, number)
  | none =>
    ({ graph with
        methods := graph.methods.push id
        numbers := graph.numbers.insert id graph.methods.size },
      graph.methods.size)

def link (graph : NumberedGraph) (caller callee : MethodId) :
    NumberedGraph :=
  let (graph, source) := graph.place caller
  let (graph, target) := graph.place callee
  { graph with links := (source, target) :: graph.links }

def enter (graph : NumberedGraph) : GraphEntry → NumberedGraph
  | .method id => (graph.place id).1
  | .call caller callee => graph.link caller callee

def ofHistory (history : List GraphEntry) : NumberedGraph :=
  history.foldl enter empty

/-- The places that a place is linked to, the latest link first. -/
def targets (graph : NumberedGraph) (number : Nat) : List Nat :=
  graph.links.filterMap fun link =>
    if link.1 = number then some link.2 else none

/-- The callees of a method; all places must be those of methods. -/
def callees? (graph : NumberedGraph) (id : MethodId) :
    Option (List MethodId) :=
  match graph.numbers[id]? with
  | none => some []
  | some number => do
    let latestFirst ← (graph.targets number).mapM (graph.methods[·]?)
    return latestFirst.reverse

/-! ## Both forms of a graph -/

/-- The places of a link are those of the methods of an edge. -/
def Places (methods : Array MethodId) (link : Nat × Nat)
    (edge : MethodId × MethodId) : Prop :=
  methods[link.1]? = some edge.1 ∧ methods[link.2]? = some edge.2

/-- The array and the map are inverse to each other, and the array and the links
are the nodes and the edges of the graph. -/
structure Represents (numbered : NumberedGraph) (graph : CallGraph) :
    Prop where
  methods : numbered.methods = graph.nodes
  numbers : ∀ (id : MethodId) (number : ℕ),
    numbered.numbers[id]? = some number ↔ graph.nodes[number]? = some id
  links : List.Forall₂ (Places graph.nodes) numbered.links
    graph.edges.toList.reverse

variable {numbered : NumberedGraph} {graph : CallGraph}

theorem represents_empty : empty.Represents .empty where
  methods := rfl
  numbers := by simp [empty, CallGraph.empty]
  links := .nil

theorem Represents.numbers_eq_none_iff (h : numbered.Represents graph)
    (id : MethodId) : numbered.numbers[id]? = none ↔ id ∉ graph.nodes := by
  rw [Option.eq_none_iff_forall_not_mem, Array.mem_iff_getElem?, not_exists]
  exact forall_congr' fun number => not_congr (h.numbers id number)

theorem getElem?_nodes_addMethod {number : ℕ} {id : MethodId}
    (h : graph.nodes[number]? = some id) (other : MethodId) :
    (graph.addMethod other).nodes[number]? = some id := by
  by_cases hold : other ∈ graph.nodes
  · rw [CallGraph.addMethod_of_mem hold]
    exact h
  · have hlt := (Array.getElem?_eq_some_iff.mp h).1
    rw [CallGraph.nodes_addMethod_of_notMem hold, Array.getElem?_push,
      if_neg hlt.ne]
    exact h

theorem Places.addMethod {link : ℕ × ℕ} {edge : MethodId × MethodId}
    (h : Places graph.nodes link edge) (id : MethodId) :
    Places (graph.addMethod id).nodes link edge :=
  ⟨getElem?_nodes_addMethod h.1 id, getElem?_nodes_addMethod h.2 id⟩

/-- Entering a method in both forms keeps them together, and the place that is
given back is that of the method. -/
theorem Represents.place (h : numbered.Represents graph) (id : MethodId) :
    (numbered.place id).1.Represents (graph.addMethod id) ∧
      (graph.addMethod id).nodes[(numbered.place id).2]? = some id := by
  unfold NumberedGraph.place
  cases hnumber : numbered.numbers[id]? with
  | some number =>
      have hplace := (h.numbers id number).mp hnumber
      rw [CallGraph.addMethod_of_mem (Array.mem_of_getElem? hplace)]
      exact ⟨h, hplace⟩
  | none =>
      have hnew := (h.numbers_eq_none_iff id).mp hnumber
      have hnodes := CallGraph.nodes_addMethod_of_notMem hnew
      refine ⟨⟨?_, ?_, ?_⟩, ?_⟩
      · rw [hnodes, h.methods]
      · intro other number
        rw [hnodes, Array.getElem?_push, Std.HashMap.getElem?_insert,
          h.methods]
        by_cases heq : id = other
        · subst heq
          by_cases hlast : number = graph.nodes.size
          · simp [hlast]
          · have hmissing : graph.nodes[number]? ≠ some id :=
              fun hmem => hnew (Array.mem_of_getElem? hmem)
            simp [hlast, hmissing, eq_comm]
        · by_cases hlast : number = graph.nodes.size
          · have hmissing : numbered.numbers[other]? ≠ some number := by
              rw [ne_eq, h.numbers, hlast]
              simp
            simp [hlast, heq, hlast ▸ hmissing]
          · simpa [hlast, heq] using h.numbers other number
      · rw [CallGraph.edges_addMethod]
        exact h.links.imp fun _ _ hplaces => hplaces.addMethod id
      · rw [hnodes, h.methods, Array.getElem?_push, if_pos rfl]

theorem Represents.link (h : numbered.Represents graph)
    (caller callee : MethodId) :
    (numbered.link caller callee).Represents
      (graph.addCall caller callee) := by
  obtain ⟨hcaller, hsource⟩ := h.place caller
  obtain ⟨hcallee, htarget⟩ := hcaller.place callee
  refine ⟨hcallee.methods, hcallee.numbers, ?_⟩
  rw [CallGraph.edges_addCall, Array.toList_push, List.reverse_append,
    List.reverse_singleton, List.singleton_append]
  have hlinks := hcallee.links
  rw [CallGraph.edges_addMethod, CallGraph.edges_addMethod] at hlinks
  exact .cons ⟨getElem?_nodes_addMethod hsource callee, htarget⟩ hlinks

theorem Represents.enter (h : numbered.Represents graph)
    (entry : GraphEntry) :
    (numbered.enter entry).Represents (graph.enter entry) := by
  cases entry with
  | method id => exact (h.place id).1
  | call caller callee => exact h.link caller callee

theorem ofHistory_append_singleton (history : List GraphEntry)
    (entry : GraphEntry) :
    ofHistory (history ++ [entry]) = (ofHistory history).enter entry :=
  List.foldl_concat ..

theorem represents_ofHistory (history : List GraphEntry) :
    (ofHistory history).Represents (.ofHistory history) := by
  induction history using List.reverseRecOn with
  | nil => exact represents_empty
  | append_singleton history entry ih =>
      rw [CallGraph.ofHistory_append_singleton, ofHistory_append_singleton]
      exact ih.enter entry

/-! ## Reading -/

theorem Represents.numbers_eq_node? (h : numbered.Represents graph)
    (hnodup : graph.nodes.toList.Nodup) (id : MethodId) :
    numbered.numbers[id]? = graph.node? id := by
  apply Option.ext
  intro number
  rw [h.numbers, CallGraph.node?_eq_some_iff hnodup]

/-- The links of a place are the edges of its method. -/
theorem Represents.forall₂_targets (h : numbered.Represents graph)
    {id : MethodId} {number : ℕ}
    (hnumber : numbered.numbers[id]? = some number) :
    List.Forall₂ (fun target callee => numbered.methods[target]? = some callee)
      (numbered.targets number) (graph.callees id).reverse := by
  unfold targets CallGraph.callees
  rw [← List.filterMap_reverse]
  refine List.rel_filterMap ?_ h.links
  rintro link ⟨caller, callee⟩ ⟨hsource, htarget⟩
  have hsame : link.1 = number ↔ caller = id := by
    have hlink := (h.numbers caller link.1).mpr hsource
    constructor
    · rintro rfl
      exact Option.some.inj
        (hsource.symm.trans ((h.numbers id link.1).mp hnumber))
    · rintro rfl
      exact Option.some.inj (hlink.symm.trans hnumber)
  by_cases hcaller : caller = id
  · simpa [hsame, hcaller, h.methods] using htarget
  · simp [hsame, hcaller]

theorem Represents.size_methods (h : numbered.Represents graph) :
    numbered.methods.size = graph.methodCount := by
  rw [h.methods]
  rfl

theorem Represents.length_links (h : numbered.Represents graph) :
    numbered.links.length = graph.edgeCount := by
  rw [h.links.length_eq, List.length_reverse, Array.length_toList]
  rfl

theorem Represents.callees?_eq (h : numbered.Represents graph)
    (id : MethodId) : numbered.callees? id = some (graph.callees id) := by
  unfold callees?
  cases hnumber : numbered.numbers[id]? with
  | some number =>
      have htargets := mapM_eq_some_of_forall₂ (h.forall₂_targets hnumber)
      simp [htargets]
  | none =>
      have hnew := (h.numbers_eq_none_iff id).mp hnumber
      -- a caller is a node, so what is no node calls nothing
      have hcallers : ∀ edge ∈ graph.edges.toList.reverse,
          edge.1 ∈ graph.nodes := by
        have hboth := h.links.flip.imp fun edge link hplaces =>
          And.intro (Array.mem_of_getElem? hplaces.1) hplaces
        exact (List.forall₂_and_left _ _).mp hboth |>.1
      have hnone : graph.callees id = [] := by
        unfold CallGraph.callees
        rw [List.filterMap_eq_nil_iff]
        rintro ⟨caller, callee⟩ hedge
        refine if_neg ?_
        rintro rfl
        exact hnew (hcallers _ (List.mem_reverse.mpr hedge))
      rw [hnone]

end NumberedGraph

namespace CallGraph

/-- What can be read from a graph is what the entries say. -/
structure Follows (graph : CallGraph) (history : List GraphEntry) : Prop where
  /-- Of the methods that are mentioned, each has as its number the count of those
  mentioned before it for the first time. -/
  node? : ∀ id, graph.node? id =
    if id ∈ mentioned history then
      some ((mentioned history).takeWhile (· ≠ id)).toFinset.card
    else none
  /-- The node of a number is the method that has it. -/
  nodes : ∀ (number : ℕ) (id : MethodId),
    graph.nodes[number]? = some id ↔ graph.node? id = some number
  numbers : ∀ number, number < graph.methodCount ↔
    ∃ id, graph.node? id = some number
  methodCount : graph.methodCount = (mentioned history).toFinset.card
  edgeCount : graph.edgeCount = history.countP isCall
  callees : ∀ id, graph.callees id = history.filterMap (calleeOf? id)

theorem ofHistory_follows (history : List GraphEntry) :
    (ofHistory history).Follows history := by
  have hnodes : ∀ (number : ℕ) (id : MethodId),
      (ofHistory history).nodes[number]? = some id ↔
        (ofHistory history).node? id = some number :=
    fun _ _ => (node?_eq_some_iff (nodup_nodes_ofHistory history)).symm
  refine ⟨node?_ofHistory history, hnodes, ?_, methodCount_ofHistory history,
    edgeCount_ofHistory history, callees_ofHistory history⟩
  intro number
  simp only [← hnodes, methodCount]
  constructor
  · intro hlt
    exact ⟨_, Array.getElem?_eq_getElem hlt⟩
  · rintro ⟨id, hid⟩
    exact (Array.getElem?_eq_some_iff.mp hid).1

/-- A graph says what was entered, and the form that is kept by numbers says the
same. -/
theorem ofHistory_reads_entries (history : List GraphEntry) :
    let graph := ofHistory history
    let numbered := NumberedGraph.ofHistory history
    graph.Follows history ∧
      numbered.methods.size = graph.methodCount ∧
      (∀ (id : MethodId) (number : ℕ),
        numbered.numbers[id]? = some number ↔
          numbered.methods[number]? = some id) ∧
      (∀ id : MethodId, numbered.numbers[id]? = graph.node? id) ∧
      numbered.links.length = graph.edgeCount ∧
      ∀ id, numbered.callees? id = some (graph.callees id) := by
  have hrepresents := NumberedGraph.represents_ofHistory history
  refine ⟨ofHistory_follows history, hrepresents.size_methods, ?_, ?_,
    hrepresents.length_links, hrepresents.callees?_eq⟩
  · rw [hrepresents.methods]
    exact hrepresents.numbers
  · exact hrepresents.numbers_eq_node? (nodup_nodes_ofHistory history)

end CallGraph

end ModuleRecovery
