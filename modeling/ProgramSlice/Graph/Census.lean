import ProgramSlice.Graph.Basic

/-!
# Counting a graph

`Census` counts nodes and edges and splits the edges by type, each edge in one class.  `Summary` is
the short form of it that goes with the function's name: there an edge that both rules produced
counts for each of them.
-/

namespace ProgramSlice

/-- The sizes of a graph, each edge counted in the class of its type. -/
structure Census where
  /-- The number of nodes. -/
  nodeCount : Nat
  /-- The number of edges. -/
  edgeCount : Nat
  /-- The number of edges by the sequencing rule alone. -/
  sequencingEdges : Nat
  /-- The number of edges by the data rule alone. -/
  dataEdges : Nat
  /-- The number of edges by both rules. -/
  bothEdges : Nat
deriving DecidableEq

/-- The sizes of a function's graph, each edge counted for every rule that produced it. -/
structure Summary where
  /-- The function. -/
  functionId : String
  /-- The number of nodes. -/
  nodeCount : Nat
  /-- The number of edges that the sequencing rule took part in. -/
  sequencingEdges : Nat
  /-- The number of edges that the data rule took part in. -/
  dataEdges : Nat
deriving DecidableEq

namespace DependencyGraph

/-- The number of edges of one type. -/
def countType (g : DependencyGraph) (t : DependencyType) : Nat :=
  g.edges.countP (·.provenance.type = t)

/-- Count a graph. -/
def census (g : DependencyGraph) : Census where
  nodeCount := g.nodeCount
  edgeCount := g.edgeCount
  sequencingEdges := g.countType .sequencing
  dataEdges := g.countType .data
  bothEdges := g.countType .both

/-- Sum a graph up. -/
def summary (g : DependencyGraph) : Summary where
  functionId := g.functionId
  nodeCount := g.census.nodeCount
  sequencingEdges := g.census.sequencingEdges + g.census.bothEdges
  dataEdges := g.census.dataEdges + g.census.bothEdges

end DependencyGraph

end ProgramSlice
