import ProgramSlice.Proofs.Graph.Growth

/-!
# Loading what was written out

A record that a graph was written to is loaded into the same graph.  Loading registers the nodes
and then the edges one after the other, and the record of a well-formed graph repeats nothing, so
every step appends: a node behind the nodes before it (`foldl_addNode`), and an edge behind the
edges before it (`foldl_loadEdge`), whose ends are registered by then.
-/

namespace ProgramSlice

/-- The record of an edge states the provenance of the edge. -/
theorem Edge.provenance_toRecord (e : Edge) : e.toRecord.provenance = e.provenance := by
  rw [EdgeRecord.provenance, Edge.toRecord, HandleSet.ofList_toList]

namespace DependencyGraph

variable {g : DependencyGraph}

/-- Nodes that repeat nothing are appended in their order. -/
theorem foldl_addNode {nodes : List OperationId} (h : (g.nodes ++ nodes).Nodup) :
    nodes.foldl addNode g = { g with nodes := g.nodes ++ nodes } := by
  induction nodes generalizing g with
  | nil => simp
  | cons o rest ih =>
      have hnew : o ∉ g.nodes := by
        intro ho
        exact (List.nodup_append.mp h).2.2 o ho o List.mem_cons_self rfl
      have hadd : g.addNode o = { g with nodes := g.nodes ++ [o] } := by
        rw [addNode, if_neg hnew]
      rw [List.foldl_cons, hadd, ih]
      · simp
      · simpa using h

/-- A written edge between nodes is appended if its pair is new. -/
theorem loadEdge_toRecord {e : Edge} (ha : e.dependent ∈ g.nodes) (hb : e.dependency ∈ g.nodes)
    (hnew : e.pair ∉ g.edges.map Edge.pair) :
    g.loadEdge e.toRecord = { g with edges := g.edges ++ [e] } := by
  have hedges : Edge.upsert e.dependent e.dependency e.provenance (fun _ => e.provenance) g.edges
      = g.edges ++ [e] := Edge.upsert_of_notMem hnew
  rw [loadEdge, Edge.provenance_toRecord]
  show g.setProvenance e.dependent e.dependency e.provenance = _
  rw [setProvenance, alterDependency, addNode_of_mem ha, addNode_of_mem hb]
  simp only [hedges]

/-- Written edges between nodes that repeat no pair are appended in their order. -/
theorem foldl_loadEdge {edges : List Edge} (hpairs : ((g.edges ++ edges).map Edge.pair).Nodup)
    (hends : ∀ e ∈ edges, e.dependent ∈ g.nodes ∧ e.dependency ∈ g.nodes) :
    (edges.map Edge.toRecord).foldl loadEdge g = { g with edges := g.edges ++ edges } := by
  induction edges generalizing g with
  | nil => simp
  | cons e rest ih =>
      have hnew : e.pair ∉ g.edges.map Edge.pair := by
        intro he
        rw [List.map_append, List.nodup_append] at hpairs
        exact hpairs.2.2 e.pair he e.pair (by simp) rfl
      obtain ⟨ha, hb⟩ := hends e List.mem_cons_self
      rw [List.map_cons, List.foldl_cons, loadEdge_toRecord ha hb hnew, ih]
      · simp
      · simpa using hpairs
      · intro e' he'
        exact hends e' (List.mem_cons_of_mem _ he')

/-- **A well-formed graph is loaded from its record,** with the order of its nodes and edges. -/
theorem WellFormed.ofRecord_toRecord (h : g.WellFormed) :
    DependencyGraph.ofRecord g.toRecord = g := by
  rw [DependencyGraph.ofRecord, toRecord, foldl_addNode, foldl_loadEdge]
  · simp
  · simpa using h.pairs_nodup
  · intro e he
    simpa using ⟨h.dependent_mem he, h.dependency_mem he⟩
  · simpa using h.nodes_nodup

end DependencyGraph

end ProgramSlice
