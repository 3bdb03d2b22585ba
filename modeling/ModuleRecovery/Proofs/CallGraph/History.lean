import ModuleRecovery.CallGraph
import ModuleRecovery.Proofs.Lists

/-!
# Histories of a call graph

A call graph is filled by entering methods and calls, and entering a call enters
both of its methods where they are new.  Everything that can be read from the
graph is a function of the entries: a method has as its number the count of the
methods that were mentioned before it, and its callees are those of its calls, in
the order of the calls.
-/

namespace ModuleRecovery

/-- What is entered into a call graph. -/
inductive GraphEntry where
  | method (id : MethodId)
  | call (caller callee : MethodId)
  deriving DecidableEq, Repr

namespace GraphEntry

/-- The methods that an entry mentions, a caller before its callee. -/
def mentions : GraphEntry → List MethodId
  | .method id => [id]
  | .call caller callee => [caller, callee]

def edge? : GraphEntry → Option (MethodId × MethodId)
  | .method _ => none
  | .call caller callee => some (caller, callee)

/-- What the given method is said to call. -/
def calleeOf? (id : MethodId) : GraphEntry → Option MethodId
  | .method _ => none
  | .call caller callee => if caller = id then some callee else none

def isCall : GraphEntry → Bool
  | .method _ => false
  | .call _ _ => true

/-- All mentions of methods, in their order. -/
def mentioned (history : List GraphEntry) : List MethodId :=
  history.flatMap mentions

theorem mentioned_append_singleton (history : List GraphEntry)
    (entry : GraphEntry) :
    mentioned (history ++ [entry]) = mentioned history ++ entry.mentions := by
  simp [mentioned]

end GraphEntry

open GraphEntry

namespace CallGraph

def enter (graph : CallGraph) : GraphEntry → CallGraph
  | .method id => graph.addMethod id
  | .call caller callee => graph.addCall caller callee

/-- The graph after the given entries. -/
def ofHistory (history : List GraphEntry) : CallGraph :=
  history.foldl enter empty

theorem ofHistory_append_singleton (history : List GraphEntry)
    (entry : GraphEntry) :
    ofHistory (history ++ [entry]) = (ofHistory history).enter entry :=
  List.foldl_concat ..

/-! ## One entry -/

variable {graph : CallGraph}

@[simp] theorem edges_addMethod (graph : CallGraph) (id : MethodId) :
    (graph.addMethod id).edges = graph.edges := by
  unfold addMethod
  split <;> rfl

@[simp] theorem edges_addCall (graph : CallGraph) (caller callee : MethodId) :
    (graph.addCall caller callee).edges =
      graph.edges.push (caller, callee) := by
  simp [addCall]

theorem addMethod_of_mem {id : MethodId} (h : id ∈ graph.nodes) :
    graph.addMethod id = graph := by
  unfold addMethod
  rw [if_pos (Array.contains_iff_mem.mpr h)]

theorem nodes_addMethod_of_notMem {id : MethodId} (h : id ∉ graph.nodes) :
    (graph.addMethod id).nodes = graph.nodes.push id := by
  unfold addMethod
  rw [if_neg (mt Array.contains_iff_mem.mp h)]

/-- If the nodes were the methods mentioned so far, they are so after one more
mention. -/
theorem toList_nodes_addMethod {mentions : List MethodId}
    (h : graph.nodes.toList = mentions.eraseDups) (id : MethodId) :
    (graph.addMethod id).nodes.toList = (mentions ++ [id]).eraseDups := by
  have hmem : id ∈ graph.nodes ↔ id ∈ mentions := by
    rw [← Array.mem_toList_iff, h, List.mem_eraseDups]
  rw [List.eraseDups_append, ← h]
  by_cases hold : id ∈ graph.nodes
  · rw [addMethod_of_mem hold]
    simp [List.removeAll, hmem.mp hold]
  · rw [nodes_addMethod_of_notMem hold]
    simp [List.removeAll, mt hmem.mpr hold, List.eraseDups_cons]

theorem toList_nodes_enter {mentions : List MethodId}
    (h : graph.nodes.toList = mentions.eraseDups) (entry : GraphEntry) :
    (graph.enter entry).nodes.toList =
      (mentions ++ entry.mentions).eraseDups := by
  cases entry with
  | method id => exact toList_nodes_addMethod h id
  | call caller callee =>
      have hcallee :=
        toList_nodes_addMethod (toList_nodes_addMethod h caller) callee
      rw [List.append_assoc] at hcallee
      exact hcallee

theorem toList_edges_enter (graph : CallGraph) (entry : GraphEntry) :
    (graph.enter entry).edges.toList =
      graph.edges.toList ++ entry.edge?.toList := by
  cases entry with
  | method id => simp [enter, edge?]
  | call caller callee => simp [enter, edge?]

/-! ## All entries -/

theorem toList_nodes_ofHistory (history : List GraphEntry) :
    (ofHistory history).nodes.toList = (mentioned history).eraseDups := by
  induction history using List.reverseRecOn with
  | nil => rfl
  | append_singleton history entry ih =>
      rw [ofHistory_append_singleton, mentioned_append_singleton]
      exact toList_nodes_enter ih entry

theorem toList_edges_ofHistory (history : List GraphEntry) :
    (ofHistory history).edges.toList = history.filterMap edge? := by
  induction history using List.reverseRecOn with
  | nil => rfl
  | append_singleton history entry ih =>
      rw [ofHistory_append_singleton, toList_edges_enter, ih,
        List.filterMap_append]
      cases entry <;> rfl

theorem nodup_nodes_ofHistory (history : List GraphEntry) :
    (ofHistory history).nodes.toList.Nodup := by
  rw [toList_nodes_ofHistory]
  exact nodup_eraseDups _

theorem node?_eq_idxOf? (graph : CallGraph) (id : MethodId) :
    graph.node? id = graph.nodes.toList.idxOf? id := by
  rw [← List.idxOf?_toArray, Array.toArray_toList]
  rfl

theorem node?_eq_some_iff (h : graph.nodes.toList.Nodup) {id : MethodId}
    {number : ℕ} :
    graph.node? id = some number ↔ graph.nodes[number]? = some id := by
  rw [node?_eq_idxOf?, ← Array.getElem?_toList]
  constructor
  · intro hnumber
    obtain ⟨hlt, heq, -⟩ := List.idxOf?_eq_some_iff.mp hnumber
    exact List.getElem?_eq_some_iff.mpr ⟨hlt, heq⟩
  · exact idxOf?_eq_some_of_nodup h

theorem node?_ofHistory (history : List GraphEntry) (id : MethodId) :
    (ofHistory history).node? id =
      if id ∈ mentioned history then
        some ((mentioned history).takeWhile (· ≠ id)).toFinset.card
      else none := by
  rw [node?_eq_idxOf?, toList_nodes_ofHistory, idxOf?_eraseDups]

theorem methodCount_ofHistory (history : List GraphEntry) :
    (ofHistory history).methodCount = (mentioned history).toFinset.card := by
  unfold methodCount
  rw [← Array.length_toList, toList_nodes_ofHistory,
    card_toFinset_eq_length_eraseDups]

theorem callees_ofHistory (history : List GraphEntry) (id : MethodId) :
    (ofHistory history).callees id = history.filterMap (calleeOf? id) := by
  unfold callees
  rw [toList_edges_ofHistory, List.filterMap_filterMap]
  congr 1
  funext entry
  cases entry <;> rfl

theorem edgeCount_ofHistory (history : List GraphEntry) :
    (ofHistory history).edgeCount = history.countP isCall := by
  unfold edgeCount
  rw [← Array.length_toList, toList_edges_ofHistory,
    List.length_filterMap_eq_countP]
  congr 1
  funext entry
  cases entry <;> rfl

end CallGraph

end ModuleRecovery
