import ModuleRecovery.ClassModel

/-!
# Call graphs

The nodes of a call graph are methods, numbered in the order of their first
mention.  A call is an edge; the same call may be entered more than once, and
each entry counts.
-/

namespace ModuleRecovery

/-- Methods and the calls between them, both in the order they were entered. -/
structure CallGraph where
  nodes : Array MethodId
  edges : Array (MethodId × MethodId)
  deriving DecidableEq, Repr

namespace CallGraph

def empty : CallGraph :=
  ⟨#[], #[]⟩

/-- Enters a method, if it has not been mentioned yet. -/
def addMethod (graph : CallGraph) (method : MethodId) : CallGraph :=
  if graph.nodes.contains method then graph
  else { graph with nodes := graph.nodes.push method }

/-- Enters a call; the caller is mentioned before the callee. -/
def addCall (graph : CallGraph) (caller callee : MethodId) : CallGraph :=
  let graph := (graph.addMethod caller).addMethod callee
  { graph with edges := graph.edges.push (caller, callee) }

def node? (graph : CallGraph) (method : MethodId) : Option Nat :=
  graph.nodes.idxOf? method

/-- The methods that a method calls, in the order the calls were entered. -/
def callees (graph : CallGraph) (method : MethodId) : List MethodId :=
  graph.edges.toList.filterMap fun (caller, callee) =>
    if caller = method then some callee else none

def methodCount (graph : CallGraph) : Nat :=
  graph.nodes.size

def edgeCount (graph : CallGraph) : Nat :=
  graph.edges.size

end CallGraph

end ModuleRecovery
