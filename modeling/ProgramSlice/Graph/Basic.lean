import ProgramSlice.Body.Operation
import ProgramSlice.Graph.Provenance

/-!
# Dependency graphs

A graph has operations as nodes and, for each pair of which one depends on the other, one edge
with its provenance.  Nodes are kept in the order of their registration and edges in the order in
which their pairs were first recorded.  Those two lists are all the state there is: the
neighbours of a node, the counts and the record of a graph are read off them.

The graph grows by `addNode` and `addDependency`.  `setProvenance` is for loading a graph that was
written out: it replaces what was known of a pair instead of adding to it.
-/

namespace ProgramSlice

/-- One operation that depends on another, and why. -/
structure Edge where
  /-- The operation that depends. -/
  dependent : OperationId
  /-- The operation that it depends on. -/
  dependency : OperationId
  /-- Why it does. -/
  provenance : Provenance
deriving DecidableEq

namespace Edge

/-- The two ends of an edge, the dependent first. -/
def pair (e : Edge) : OperationId × OperationId := (e.dependent, e.dependency)

/-- Change what is known of a pair in a list of edges, or append the pair if it is not there. -/
def upsert (a b : OperationId) (first : Provenance) (change : Provenance → Provenance) :
    List Edge → List Edge
  | [] => [⟨a, b, first⟩]
  | e :: rest =>
      if e.pair = (a, b) then { e with provenance := change e.provenance } :: rest
      else e :: upsert a b first change rest

end Edge

/-- The operations of one function and what they depend on. -/
structure DependencyGraph where
  /-- The function that the graph belongs to. -/
  functionId : String
  /-- The nodes in the order of their registration. -/
  nodes : List OperationId := []
  /-- The edges in the order in which their pairs were first recorded. -/
  edges : List Edge := []
deriving DecidableEq

namespace DependencyGraph

/-! ## Growing a graph -/

/-- Register an operation, unless it is registered already. -/
def addNode (g : DependencyGraph) (o : OperationId) : DependencyGraph :=
  if o ∈ g.nodes then g else { g with nodes := g.nodes ++ [o] }

/-- What is known of a pair. -/
def edge? (g : DependencyGraph) (a b : OperationId) : Option Provenance :=
  (g.edges.find? fun e => e.pair = (a, b)).map (·.provenance)

/-- Register both ends of a pair, the dependent first, and change what is known of the pair. -/
def alterDependency (g : DependencyGraph) (a b : OperationId) (first : Provenance)
    (change : Provenance → Provenance) : DependencyGraph :=
  let g := (g.addNode a).addNode b
  { g with edges := Edge.upsert a b first change g.edges }

/-- Record that `a` depends on `b` for a reason.  The answer says whether the pair is new; a pair
that is not new only gains the reason. -/
def addDependency (g : DependencyGraph) (a b : OperationId) (r : Reason) :
    Bool × DependencyGraph :=
  ((g.edge? a b).isNone, g.alterDependency a b (Provenance.ofReason r) (·.record r))

/-- Make `a` depend on `b` with exactly this provenance, whatever was known of the pair. -/
def setProvenance (g : DependencyGraph) (a b : OperationId) (p : Provenance) : DependencyGraph :=
  g.alterDependency a b p fun _ => p

/-! ## Asking a graph -/

/-- Whether an operation is registered. -/
def containsNode (g : DependencyGraph) (o : OperationId) : Bool := o ∈ g.nodes

/-- Whether `a` depends on `b`. -/
def containsDependency (g : DependencyGraph) (a b : OperationId) : Bool := (g.edge? a b).isSome

/-- Which rules make `a` depend on `b`. -/
def dependencyType? (g : DependencyGraph) (a b : OperationId) : Option DependencyType :=
  (g.edge? a b).map (·.type)

/-- What an operation depends on, in edge order. -/
def dependenciesOf (g : DependencyGraph) (o : OperationId) : List OperationId :=
  (g.edges.filter (·.dependent = o)).map (·.dependency)

/-- What depends on an operation, in edge order. -/
def dependentsOf (g : DependencyGraph) (o : OperationId) : List OperationId :=
  (g.edges.filter (·.dependency = o)).map (·.dependent)

/-- What an operation depends on, as a set. -/
def dependencySet (g : DependencyGraph) (o : OperationId) : HandleSet OperationId :=
  HandleSet.ofList (g.dependenciesOf o)

/-- Every node with what it depends on, in node order. -/
def dependencyMap (g : DependencyGraph) : List (OperationId × HandleSet OperationId) :=
  g.nodes.map fun o => (o, g.dependencySet o)

/-- The number of nodes. -/
def nodeCount (g : DependencyGraph) : Nat := g.nodes.length

/-- The number of edges. -/
def edgeCount (g : DependencyGraph) : Nat := g.edges.length

/-- Whether a graph has no node. -/
def isEmpty (g : DependencyGraph) : Bool := g.nodes.isEmpty

/-- The same graph for another function. -/
def rename (g : DependencyGraph) (functionId : String) : DependencyGraph := { g with functionId }

end DependencyGraph

end ProgramSlice
