import Mathlib.Data.List.Nodup
import Mathlib.Tactic
import ProgramSlice.Graph.Record

/-!
# What growing a graph does to it

A graph grows by registering operations and by altering what is known of a pair.  Both leave the
lists of a graph in a certain form, and this file says which, through two views of a graph.

* **The view by pairs.**  `edge?` answers what is known of a pair, and `edge?_alterDependency` says
  what an alteration does to the answers: it changes the one at its pair and no other.
* **Well-formed graphs.**  No node and no pair is listed twice, and the ends of every edge are
  nodes.  Every way of growing a graph keeps this (`WellFormed.addNode`,
  `WellFormed.alterDependency`), and in a well-formed graph the view by pairs is the list of edges
  (`WellFormed.mem_edges`).
-/

namespace ProgramSlice

/-! ## One pair in a list of edges -/

namespace Edge

variable {a b : OperationId} {first : Provenance} {change : Provenance → Provenance}

/-- What a list of edges says of a pair: the provenance of the first edge between its ends. -/
def known (edges : List Edge) (a b : OperationId) : Option Provenance :=
  (edges.find? fun e => e.pair = (a, b)).map (·.provenance)

theorem known_cons (e : Edge) (edges : List Edge) (a b : OperationId) :
    known (e :: edges) a b = if e.pair = (a, b) then some e.provenance else known edges a b := by
  by_cases h : e.pair = (a, b)
  · simp [known, h]
  · simp [known, h]

/-- Nothing is known of a pair exactly if it is not listed. -/
theorem known_eq_none_iff {edges : List Edge} :
    known edges a b = none ↔ (a, b) ∉ edges.map pair := by
  simp [known]

theorem pair_mem_of_mem {e : Edge} {edges : List Edge} (h : e ∈ edges) :
    e.pair ∈ edges.map pair := List.mem_map_of_mem h

/-- **An alteration changes what is known at its pair only.** -/
theorem known_upsert (edges : List Edge) (c d : OperationId) :
    known (upsert a b first change edges) c d
      = if (a, b) = (c, d) then some ((known edges a b).elim first change)
        else known edges c d := by
  induction edges with
  | nil => simp [upsert, known, pair]
  | cons e rest ih =>
      rw [upsert]
      by_cases he : e.pair = (a, b)
      · rw [if_pos he, known_cons, known_cons, known_cons, if_pos he]
        have hpair : pair { e with provenance := change e.provenance } = (a, b) := he
        rw [hpair]
        by_cases hcd : (a, b) = (c, d)
        · rw [if_pos hcd, if_pos hcd]
          rfl
        · rw [if_neg hcd, if_neg hcd, if_neg (fun h => hcd (he ▸ h))]
      · rw [if_neg he, known_cons, ih, known_cons, known_cons, if_neg he]
        by_cases hcd : (a, b) = (c, d)
        · rw [if_pos hcd, if_pos hcd, if_neg (fun h => he (h.trans hcd.symm))]
        · rw [if_neg hcd, if_neg hcd]

/-- A pair that is listed stays at its place, and one that is not goes to the end. -/
theorem pairs_upsert (edges : List Edge) :
    (upsert a b first change edges).map pair
      = if (a, b) ∈ edges.map pair then edges.map pair else edges.map pair ++ [(a, b)] := by
  induction edges with
  | nil => simp [upsert, pair]
  | cons e rest ih =>
      rw [upsert]
      by_cases he : e.pair = (a, b)
      · rw [if_pos he, if_pos (by simp [he])]
        rfl
      · have hmem : (a, b) ∈ (e :: rest).map pair ↔ (a, b) ∈ rest.map pair := by
          rw [List.map_cons, List.mem_cons]
          exact or_iff_right (fun h => he h.symm)
        rw [if_neg he, List.map_cons, ih]
        by_cases hrest : (a, b) ∈ rest.map pair
        · rw [if_pos hrest, if_pos (hmem.mpr hrest), List.map_cons]
        · rw [if_neg hrest, if_neg (fun h => hrest (hmem.mp h)), List.map_cons, List.cons_append]

theorem mem_pairs_upsert (edges : List Edge) (p : OperationId × OperationId) :
    p ∈ (upsert a b first change edges).map pair ↔ p = (a, b) ∨ p ∈ edges.map pair := by
  rw [pairs_upsert]
  split
  · next h =>
    constructor
    · exact Or.inr
    · rintro (rfl | hp)
      · exact h
      · exact hp
  · rw [List.mem_append, List.mem_singleton, or_comm]

theorem nodup_pairs_upsert {edges : List Edge} (h : (edges.map pair).Nodup) :
    ((upsert a b first change edges).map pair).Nodup := by
  rw [pairs_upsert]
  split
  · exact h
  · next hnew =>
    rw [List.nodup_append]
    refine ⟨h, List.nodup_singleton _, ?_⟩
    rintro p hp q hq rfl
    rw [List.mem_singleton] at hq
    exact hnew (hq ▸ hp)

/-- A pair that is not listed is appended with its first provenance. -/
theorem upsert_of_notMem {edges : List Edge} (h : (a, b) ∉ edges.map pair) :
    upsert a b first change edges = edges ++ [⟨a, b, first⟩] := by
  induction edges with
  | nil => rfl
  | cons e rest ih =>
      rw [List.map_cons, List.mem_cons, not_or] at h
      rw [upsert, if_neg (Ne.symm h.1), ih h.2, List.cons_append]

/-- A change that leaves what is known of its pair leaves the edges. -/
theorem upsert_eq_self {edges : List Edge} {p : Provenance} (h : known edges a b = some p)
    (hchange : change p = p) : upsert a b first change edges = edges := by
  induction edges with
  | nil => simp [known] at h
  | cons e rest ih =>
      rw [known_cons] at h
      rw [upsert]
      by_cases he : e.pair = (a, b)
      · rw [if_pos he] at h
        rw [if_pos he, Option.some.inj h, hchange, ← Option.some.inj h]
      · rw [if_neg he] at h
        rw [if_neg he, ih h]

/-- Where no pair is listed twice, an edge is listed exactly when it is what is known. -/
theorem mem_iff_known {edges : List Edge} (h : (edges.map pair).Nodup) {a b : OperationId}
    {p : Provenance} : ⟨a, b, p⟩ ∈ edges ↔ known edges a b = some p := by
  induction edges with
  | nil => simp [known]
  | cons e rest ih =>
      rw [List.map_cons, List.nodup_cons] at h
      rw [known_cons, List.mem_cons]
      by_cases he : e.pair = (a, b)
      · rw [if_pos he]
        obtain ⟨c, d, q⟩ := e
        obtain ⟨rfl, rfl⟩ : c = a ∧ d = b := by simpa [pair] using he
        constructor
        · rintro (heq | hmem)
          · simp_all
          · exact absurd (pair_mem_of_mem hmem) h.1
        · intro heq
          exact Or.inl (by simp_all)
      · rw [if_neg he, ← ih h.2]
        exact or_iff_right (fun heq => he (by rw [← heq]; rfl))

end Edge

namespace DependencyGraph

variable {g : DependencyGraph} {a b o x : OperationId} {first : Provenance}
  {change : Provenance → Provenance}

/-! ## The nodes -/

@[simp] theorem mem_nodes_addNode : x ∈ (g.addNode o).nodes ↔ x ∈ g.nodes ∨ x = o := by
  rw [addNode]
  split
  · next h =>
    constructor
    · exact Or.inl
    · rintro (hx | rfl)
      · exact hx
      · exact h
  · simp

theorem addNode_of_mem (h : o ∈ g.nodes) : g.addNode o = g := by
  rw [addNode, if_pos h]

theorem nodes_addNode_of_notMem (h : o ∉ g.nodes) : (g.addNode o).nodes = g.nodes ++ [o] := by
  rw [addNode, if_neg h]

@[simp] theorem edges_addNode (g : DependencyGraph) (o : OperationId) :
    (g.addNode o).edges = g.edges := by
  rw [addNode]
  split <;> rfl

@[simp] theorem functionId_addNode (g : DependencyGraph) (o : OperationId) :
    (g.addNode o).functionId = g.functionId := by
  rw [addNode]
  split <;> rfl

@[simp] theorem nodes_alterDependency :
    (g.alterDependency a b first change).nodes = ((g.addNode a).addNode b).nodes := rfl

@[simp] theorem edges_alterDependency :
    (g.alterDependency a b first change).edges = Edge.upsert a b first change g.edges := by
  simp [alterDependency]

@[simp] theorem functionId_alterDependency :
    (g.alterDependency a b first change).functionId = g.functionId := by
  simp [alterDependency]

/-- Between operations that are registered an alteration adds no node. -/
theorem nodes_alterDependency_of_mem (ha : a ∈ g.nodes) (hb : b ∈ g.nodes) :
    (g.alterDependency a b first change).nodes = g.nodes := by
  rw [nodes_alterDependency, addNode_of_mem ha, addNode_of_mem hb]

/-! ## The view by pairs -/

theorem edge?_eq_known (g : DependencyGraph) (a b : OperationId) :
    g.edge? a b = Edge.known g.edges a b := rfl

theorem edge?_eq_none_iff : g.edge? a b = none ↔ (a, b) ∉ g.edges.map Edge.pair :=
  Edge.known_eq_none_iff

@[simp] theorem edge?_addNode (g : DependencyGraph) (o a b : OperationId) :
    (g.addNode o).edge? a b = g.edge? a b := by
  rw [edge?_eq_known, edges_addNode, edge?_eq_known]

/-- **An alteration changes the answer at its pair only.** -/
theorem edge?_alterDependency (g : DependencyGraph) (a b c d : OperationId) (first : Provenance)
    (change : Provenance → Provenance) :
    (g.alterDependency a b first change).edge? c d
      = if (a, b) = (c, d) then some ((g.edge? a b).elim first change) else g.edge? c d := by
  rw [edge?_eq_known, edges_alterDependency, Edge.known_upsert]
  rfl

/-! ## Well-formed graphs -/

/-- The form of every graph that the operations make: nothing is listed twice, and edges run
between nodes. -/
structure WellFormed (g : DependencyGraph) : Prop where
  nodes_nodup : g.nodes.Nodup
  pairs_nodup : (g.edges.map Edge.pair).Nodup
  ends_mem : ∀ p ∈ g.edges.map Edge.pair, p.1 ∈ g.nodes ∧ p.2 ∈ g.nodes

namespace WellFormed

theorem empty (functionId : String) : WellFormed { functionId } where
  nodes_nodup := List.nodup_nil
  pairs_nodup := List.nodup_nil
  ends_mem := by simp

theorem addNode (h : g.WellFormed) (o : OperationId) : (g.addNode o).WellFormed where
  nodes_nodup := by
    by_cases ho : o ∈ g.nodes
    · rw [addNode_of_mem ho]
      exact h.nodes_nodup
    · rw [nodes_addNode_of_notMem ho, List.nodup_append]
      refine ⟨h.nodes_nodup, List.nodup_singleton _, ?_⟩
      rintro x hx y hy rfl
      rw [List.mem_singleton] at hy
      exact ho (hy ▸ hx)
  pairs_nodup := by
    rw [edges_addNode]
    exact h.pairs_nodup
  ends_mem := by
    intro p hp
    rw [edges_addNode] at hp
    rw [mem_nodes_addNode, mem_nodes_addNode]
    exact ⟨Or.inl (h.ends_mem p hp).1, Or.inl (h.ends_mem p hp).2⟩

theorem alterDependency (h : g.WellFormed) (a b : OperationId) (first : Provenance)
    (change : Provenance → Provenance) : (g.alterDependency a b first change).WellFormed where
  nodes_nodup := ((h.addNode a).addNode b).nodes_nodup
  pairs_nodup := by
    rw [edges_alterDependency]
    exact Edge.nodup_pairs_upsert h.pairs_nodup
  ends_mem := by
    intro p hp
    rw [edges_alterDependency, Edge.mem_pairs_upsert] at hp
    simp only [nodes_alterDependency, mem_nodes_addNode]
    rcases hp with rfl | hp
    · exact ⟨Or.inl (Or.inr rfl), Or.inr rfl⟩
    · exact ⟨Or.inl (Or.inl (h.ends_mem p hp).1), Or.inl (Or.inl (h.ends_mem p hp).2)⟩

theorem addDependency (h : g.WellFormed) (a b : OperationId) (r : Reason) :
    (g.addDependency a b r).2.WellFormed := h.alterDependency a b _ _

theorem loadEdge (h : g.WellFormed) (e : EdgeRecord) : (g.loadEdge e).WellFormed :=
  h.alterDependency _ _ _ _

theorem rename (h : g.WellFormed) (functionId : String) : (g.rename functionId).WellFormed :=
  ⟨h.nodes_nodup, h.pairs_nodup, h.ends_mem⟩

/-- What is loaded from a record is well-formed, whatever the record repeats or leaves out. -/
theorem ofRecord (r : GraphRecord) : (DependencyGraph.ofRecord r).WellFormed := by
  have hnodes : (r.nodes.foldl DependencyGraph.addNode { functionId := r.functionId }).WellFormed :=
    List.foldlRecOn (motive := WellFormed) _ _ (empty r.functionId) fun _ h o _ => h.addNode o
  exact List.foldlRecOn (motive := WellFormed) _ _ hnodes fun _ h e _ => h.loadEdge e

/-- In a well-formed graph the edges are what the view by pairs answers. -/
theorem mem_edges (h : g.WellFormed) {p : Provenance} :
    ⟨a, b, p⟩ ∈ g.edges ↔ g.edge? a b = some p := Edge.mem_iff_known h.pairs_nodup

theorem dependent_mem (h : g.WellFormed) {e : Edge} (he : e ∈ g.edges) : e.dependent ∈ g.nodes :=
  (h.ends_mem _ (Edge.pair_mem_of_mem he)).1

theorem dependency_mem (h : g.WellFormed) {e : Edge} (he : e ∈ g.edges) : e.dependency ∈ g.nodes :=
  (h.ends_mem _ (Edge.pair_mem_of_mem he)).2

/-- An alteration that leaves what is known of its pair leaves the graph. -/
theorem alterDependency_eq_self (h : g.WellFormed) {p : Provenance} (hp : g.edge? a b = some p)
    (hchange : change p = p) : g.alterDependency a b first change = g := by
  have he := h.mem_edges.mpr hp
  have hedges : Edge.upsert a b first change g.edges = g.edges := Edge.upsert_eq_self hp hchange
  rw [DependencyGraph.alterDependency, addNode_of_mem (h.dependent_mem he),
    addNode_of_mem (h.dependency_mem he)]
  simp only [hedges]

end WellFormed

end DependencyGraph

end ProgramSlice
