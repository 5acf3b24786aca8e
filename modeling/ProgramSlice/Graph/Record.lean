import ProgramSlice.Graph.Basic

/-!
# Graphs as plain records

A record is what a graph is written out as: lists of nodes and edges without any promise.  Nodes
and pairs may repeat, the ends of an edge need not be listed, and symbols come in any order.
Loading a record makes a graph of it: the first place of a node or a pair counts, and the last
provenance of a pair.
-/

namespace ProgramSlice

/-- An edge as it is written out. -/
structure EdgeRecord where
  /-- The operation that depends. -/
  dependent : OperationId
  /-- The operation that it depends on. -/
  dependency : OperationId
  /-- The rules that produced the dependency. -/
  type : DependencyType
  /-- The symbols whose reads resolved to the dependency. -/
  symbols : List SymbolId
deriving DecidableEq

/-- A graph as it is written out. -/
structure GraphRecord where
  /-- The function that the graph belongs to. -/
  functionId : String
  /-- The nodes. -/
  nodes : List OperationId
  /-- The edges. -/
  edges : List EdgeRecord
deriving DecidableEq

/-- Write an edge out. -/
def Edge.toRecord (e : Edge) : EdgeRecord :=
  ⟨e.dependent, e.dependency, e.provenance.type, e.provenance.symbols.toList⟩

/-- The provenance that a written edge states. -/
def EdgeRecord.provenance (e : EdgeRecord) : Provenance := ⟨e.type, HandleSet.ofList e.symbols⟩

namespace DependencyGraph

/-- Write a graph out. -/
def toRecord (g : DependencyGraph) : GraphRecord :=
  ⟨g.functionId, g.nodes, g.edges.map Edge.toRecord⟩

/-- Load one written edge. -/
def loadEdge (g : DependencyGraph) (e : EdgeRecord) : DependencyGraph :=
  g.setProvenance e.dependent e.dependency e.provenance

/-- Load a record: first its nodes, then its edges with their ends. -/
def ofRecord (r : GraphRecord) : DependencyGraph :=
  r.edges.foldl loadEdge (r.nodes.foldl addNode { functionId := r.functionId })

end DependencyGraph

end ProgramSlice
