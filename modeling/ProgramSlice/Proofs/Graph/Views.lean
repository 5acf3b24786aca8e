import Mathlib.Algebra.Order.BigOperators.Group.Multiset
import Mathlib.Tactic
import ProgramSlice.Graph.Census
import ProgramSlice.Graph.Slice
import ProgramSlice.Proofs.Graph.Origin

/-!
# The views of a graph agree

A graph can be asked for a pair, for the edges, for the neighbours of an operation in either
direction, and for counts.  Each of these questions is answered from the list of edges in a way of
its own, by the first edge of a pair, by filtering or by counting, and that the answers go together
rests on the form of a graph: pairs are listed once (so neighbours are), and the ends of edges are
nodes (so that counting the neighbours of all nodes counts every edge).

Both kinds of neighbours are the same thing read in two directions (`neighbours`), so what is said
of one is said of the other.  Behind all of the views stands the list of pairs: an operation is a
neighbour of another exactly if the two are a listed pair (`mem_dependenciesOf`,
`mem_dependentsOf`).
-/

namespace ProgramSlice

/-! ## Counting by keys -/

/-- If every member of a list is among some keys, counting the list key by key counts all of it. -/
theorem sum_count_eq_length {α : Type} [DecidableEq α] {keys l : List α} (hkeys : keys.Nodup)
    (h : ∀ a ∈ l, a ∈ keys) : (keys.map fun k => l.count k).sum = l.length := by
  have hmem : ∀ a ∈ (l : Multiset α), a ∈ keys.toFinset := by
    intro a ha
    exact List.mem_toFinset.mpr (h a ha)
  have hcard := Multiset.sum_count_eq_card hmem
  rw [List.sum_toFinset _ hkeys, Multiset.coe_card] at hcard
  simpa using hcard

/-! ## Neighbours -/

/-- An edge is told by its ends in whatever direction they are read. -/
theorem Edge.pair_eq_of_ends {d : Direction} {e e' : Edge} (hsource : e.source d = e'.source d)
    (htarget : e.target d = e'.target d) : e.pair = e'.pair := by
  cases d with
  | backward => exact Prod.ext hsource htarget
  | forward => exact Prod.ext htarget hsource

namespace DependencyGraph

variable {g : DependencyGraph} {d : Direction} {a b o n : OperationId}

/-- The neighbours of an operation in one direction, in edge order. -/
def neighbours (g : DependencyGraph) (d : Direction) (o : OperationId) : List OperationId :=
  (g.edges.filter (·.source d = o)).map (·.target d)

theorem dependenciesOf_eq_neighbours (g : DependencyGraph) (o : OperationId) :
    g.dependenciesOf o = g.neighbours .backward o := rfl

theorem dependentsOf_eq_neighbours (g : DependencyGraph) (o : OperationId) :
    g.dependentsOf o = g.neighbours .forward o := rfl

theorem mem_neighbours :
    n ∈ g.neighbours d o ↔ ∃ e ∈ g.edges, e.source d = o ∧ e.target d = n := by
  simp [neighbours, and_assoc]

/-- The neighbours of an operation are what the edges at it lead to. -/
theorem neighbours_eq_filterMap (g : DependencyGraph) (d : Direction) (o : OperationId) :
    g.neighbours d o
      = g.edges.filterMap fun e => if e.source d = o then some (e.target d) else none := by
  rw [neighbours, ← List.filterMap_eq_map, List.filterMap_filter]
  simp

/-- **Neighbours are not repeated,** since pairs are not. -/
theorem WellFormed.nodup_neighbours (h : g.WellFormed) (d : Direction) (o : OperationId) :
    (g.neighbours d o).Nodup := by
  refine List.Nodup.map_on ?_ (h.pairs_nodup.of_map.filter _)
  intro e he e' he' htarget
  obtain ⟨hmem, hsource⟩ := List.mem_filter.mp he
  obtain ⟨hmem', hsource'⟩ := List.mem_filter.mp he'
  rw [decide_eq_true_eq] at hsource hsource'
  exact List.inj_on_of_nodup_map h.pairs_nodup hmem hmem'
    (Edge.pair_eq_of_ends (hsource.trans hsource'.symm) htarget)

theorem WellFormed.source_mem (h : g.WellFormed) {e : Edge} (he : e ∈ g.edges) :
    e.source d ∈ g.nodes := by
  cases d with
  | backward => exact h.dependent_mem he
  | forward => exact h.dependency_mem he

/-- **Each edge is counted at its source,** once. -/
theorem WellFormed.sum_length_neighbours (h : g.WellFormed) (d : Direction) :
    (g.nodes.map fun o => (g.neighbours d o).length).sum = g.edgeCount := by
  -- an operation has as many neighbours as it is listed among the sources of the edges
  have hlength : ∀ o, (g.neighbours d o).length = (g.edges.map (·.source d)).count o := by
    intro o
    rw [neighbours, List.length_map, ← List.countP_eq_length_filter, List.count, List.countP_map]
    rfl
  have hsource : ∀ o ∈ g.edges.map (·.source d), o ∈ g.nodes := by
    intro o ho
    obtain ⟨e, he, rfl⟩ := List.mem_map.mp ho
    exact h.source_mem he
  simp only [hlength]
  rw [sum_count_eq_length h.nodes_nodup hsource, List.length_map, edgeCount]

/-! ## Pairs -/

theorem mem_pairs_iff : (a, b) ∈ g.edges.map Edge.pair ↔ ∃ p, (⟨a, b, p⟩ : Edge) ∈ g.edges := by
  rw [List.mem_map]
  constructor
  · rintro ⟨⟨a', b', p⟩, he, hpair⟩
    cases hpair
    exact ⟨p, he⟩
  · rintro ⟨p, he⟩
    exact ⟨_, he, rfl⟩

theorem isSome_edge?_iff_mem : (g.edge? a b).isSome = true ↔ (a, b) ∈ g.edges.map Edge.pair := by
  rw [Option.isSome_iff_ne_none, ne_eq, edge?_eq_none_iff, not_not]

theorem mem_dependenciesOf : b ∈ g.dependenciesOf a ↔ (a, b) ∈ g.edges.map Edge.pair := by
  rw [dependenciesOf_eq_neighbours, mem_neighbours, List.mem_map]
  simp only [Edge.source, Edge.target, Edge.pair, Prod.mk.injEq]

theorem mem_dependentsOf : a ∈ g.dependentsOf b ↔ (a, b) ∈ g.edges.map Edge.pair := by
  rw [dependentsOf_eq_neighbours, mem_neighbours, List.mem_map]
  simp only [Edge.source, Edge.target, Edge.pair, Prod.mk.injEq, and_comm]

/-- Every edge is in the class of its type. -/
theorem sum_census (g : DependencyGraph) :
    g.census.sequencingEdges + g.census.dataEdges + g.census.bothEdges = g.edgeCount := by
  show g.countType .sequencing + g.countType .data + g.countType .both = g.edges.length
  simp only [countType]
  induction g.edges with
  | nil => rfl
  | cons e rest ih =>
      simp only [List.countP_cons, List.length_cons, ← ih]
      cases e.provenance.type <;> simp <;> omega

/-- **The views of a graph agree,** however the graph came about.  All ways of asking for a pair
have one answer, and the ends of a pair are nodes.  Nodes and pairs are listed once.  The
dependencies and the dependents of an operation are the ends of its edges in edge order, without
repeats and with the operation itself once if it has an edge to itself.  The dependency map has one
entry for each node, in node order.  Counting the dependencies of all nodes, the dependents of all
nodes, the edges or the edges by type gives one number. -/
theorem views_agree (h : g.Arises) :
    (∀ a b, [g.containsDependency a b = true, (g.edge? a b).isSome = true,
      ∃ p, (⟨a, b, p⟩ : Edge) ∈ g.edges, b ∈ g.dependenciesOf a, b ∈ g.dependencySet a,
      a ∈ g.dependentsOf b].TFAE) ∧
    (∀ a b, g.containsDependency a b = true → g.containsNode a = true ∧ g.containsNode b = true) ∧
    (g.edges.map Edge.pair).Nodup ∧ g.nodes.Nodup ∧
    (∀ o, g.dependenciesOf o
        = (g.edges.filterMap fun e => if e.dependent = o then some e.dependency else none) ∧
      (g.dependenciesOf o).Nodup ∧
      g.dependentsOf o
        = (g.edges.filterMap fun e => if e.dependency = o then some e.dependent else none) ∧
      (g.dependentsOf o).Nodup) ∧
    (∀ o, g.containsDependency o o = true →
      (g.dependenciesOf o).count o = 1 ∧ (g.dependentsOf o).count o = 1) ∧
    (g.dependencyMap.map Prod.fst = g.nodes ∧
      ∀ entry ∈ g.dependencyMap, entry.2 = g.dependencySet entry.1) ∧
    (g.nodes.map fun o => (g.dependenciesOf o).length).sum = g.edgeCount ∧
    (g.nodes.map fun o => (g.dependentsOf o).length).sum = g.edgeCount ∧
    g.edges.length = g.edgeCount ∧
    g.census.sequencingEdges + g.census.dataEdges + g.census.bothEdges = g.edgeCount := by
  have hg := h.wellFormed
  have hpair : ∀ {a b}, g.containsDependency a b = true ↔ (a, b) ∈ g.edges.map Edge.pair :=
    isSome_edge?_iff_mem
  refine ⟨fun a b => ?_, fun a b hab => ?_, hg.pairs_nodup, hg.nodes_nodup,
    fun o => ⟨?_, ?_, ?_, ?_⟩, fun o ho => ⟨?_, ?_⟩, ⟨?_, ?_⟩, hg.sum_length_neighbours .backward,
    hg.sum_length_neighbours .forward, rfl, g.sum_census⟩
  · have hset : b ∈ g.dependencySet a ↔ b ∈ g.dependenciesOf a := HandleSet.mem_ofList
    rw [hset, hpair, isSome_edge?_iff_mem, ← mem_pairs_iff, mem_dependenciesOf, mem_dependentsOf]
    tfae_finish
  · have hends := hg.ends_mem _ (hpair.mp hab)
    exact ⟨decide_eq_true hends.1, decide_eq_true hends.2⟩
  · exact neighbours_eq_filterMap g .backward o
  · exact hg.nodup_neighbours .backward o
  · exact neighbours_eq_filterMap g .forward o
  · exact hg.nodup_neighbours .forward o
  · exact List.count_eq_one_of_mem (hg.nodup_neighbours .backward o)
      (mem_dependenciesOf.mpr (hpair.mp ho))
  · exact List.count_eq_one_of_mem (hg.nodup_neighbours .forward o)
      (mem_dependentsOf.mpr (hpair.mp ho))
  · rw [dependencyMap, List.map_map]
    exact List.map_id _
  · intro entry hentry
    obtain ⟨o, _, rfl⟩ := List.mem_map.mp hentry
    rfl

/-- Two operations that depend on each other, one of them also on itself, and one without edges. -/
def entangled : DependencyGraph :=
  ((((({ functionId := "entangled" } : DependencyGraph).addDependency ⟨0⟩ ⟨1⟩ .sequencing).2.addNode
    ⟨8⟩).addDependency ⟨1⟩ ⟨1⟩ (.data ⟨3⟩)).2.addDependency ⟨1⟩ ⟨0⟩ .sequencing).2

theorem views_agree_entangled :
    entangled.Arises ∧ ⟨1⟩ ∈ entangled.dependentsOf ⟨1⟩ ∧
      (entangled.dependenciesOf ⟨1⟩).count ⟨1⟩ = 1 ∧
      (entangled.nodes.map fun o => (entangled.dependenciesOf o).length).sum = 3 := by
  have harises : entangled.Arises :=
    .addDependency (.addDependency (.addNode (.addDependency (.empty _) _ _ _) _) _ _ _) _ _ _
  obtain ⟨hpairs, _, _, _, _, hself, _, hsum, _⟩ := views_agree harises
  have hpair : entangled.containsDependency ⟨1⟩ ⟨1⟩ = true := by decide
  exact ⟨harises, ((hpairs ⟨1⟩ ⟨1⟩).out 0 5).mp hpair, (hself ⟨1⟩ hpair).1, hsum⟩

end DependencyGraph

end ProgramSlice
