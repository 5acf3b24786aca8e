import ProgramSlice.Proofs.Graph.Reachability

/-!
# Graphs that grow at new operations

A graph *extends* another if it has the nodes and edges of the other, unchanged and in their order,
and behind them only edges whose dependents are new.  This is how a graph grows as long as
dependencies are recorded for operations that it did not have (`Extends.addDependency`): what was
known of the old operations is not touched.

Dependencies are followed from an old operation to old operations only.  So extending a graph does
not change the backward slices of the operations that it had (`Extends.backward_slice`).  Forward
slices may grow.
-/

namespace ProgramSlice

/-- An alteration of a pair that is listed behind the first edges, or nowhere, leaves these. -/
theorem Edge.upsert_append {a b : OperationId} {first : Provenance}
    {change : Provenance → Provenance} {l m : List Edge} (h : (a, b) ∉ l.map Edge.pair) :
    upsert a b first change (l ++ m) = l ++ upsert a b first change m := by
  induction l with
  | nil => rfl
  | cons e rest ih =>
      rw [List.map_cons, List.mem_cons, not_or] at h
      rw [List.cons_append, upsert, if_neg (Ne.symm h.1), ih h.2, List.cons_append]

namespace DependencyGraph

variable {g g' g'' : DependencyGraph} {a b o n : OperationId} {r : Reason} {f : RuleFilter}
  {limit : Option Nat} {k : Nat}

/-- A graph goes on from another one, at operations that the other one does not have. -/
structure Extends (g g' : DependencyGraph) : Prop where
  nodes : g.nodes <+: g'.nodes
  edges : ∃ later, g'.edges = g.edges ++ later ∧ ∀ e ∈ later, e.dependent ∉ g.nodes

namespace Extends

theorem refl (g : DependencyGraph) : g.Extends g where
  nodes := List.prefix_rfl
  edges := ⟨[], by simp⟩

theorem trans (h : g.Extends g') (h' : g'.Extends g'') : g.Extends g'' where
  nodes := h.nodes.trans h'.nodes
  edges := by
    obtain ⟨later, hedges, hlater⟩ := h.edges
    obtain ⟨later', hedges', hlater'⟩ := h'.edges
    refine ⟨later ++ later', by rw [hedges', hedges, List.append_assoc], fun e he => ?_⟩
    rcases List.mem_append.mp he with he | he
    · exact hlater e he
    · exact fun hold => hlater' e he (h.nodes.subset hold)

theorem addNode (h : g.Extends g') (o : OperationId) : g.Extends (g'.addNode o) where
  nodes := by
    refine h.nodes.trans ?_
    by_cases ho : o ∈ g'.nodes
    · rw [addNode_of_mem ho]
    · rw [nodes_addNode_of_notMem ho]
      exact List.prefix_append _ _
  edges := by
    rw [edges_addNode]
    exact h.edges

/-- **A dependency of a new operation** leaves what was known. -/
theorem addDependency (hg : g.WellFormed) (h : g.Extends g') (ha : a ∉ g.nodes) (b : OperationId)
    (r : Reason) : g.Extends (g'.addDependency a b r).2 where
  nodes := ((h.addNode a).addNode b).nodes
  edges := by
    obtain ⟨later, hedges, hlater⟩ := h.edges
    have hnew : (a, b) ∉ g.edges.map Edge.pair := fun hold => ha (hg.ends_mem _ hold).1
    refine ⟨_, by rw [DependencyGraph.addDependency, edges_alterDependency, hedges,
      Edge.upsert_append hnew], fun e he => ?_⟩
    -- what is altered or appended is the pair of the new operation
    rcases (Edge.mem_pairs_upsert later _).mp (Edge.pair_mem_of_mem he) with hpair | hpair
    · rw [show e.dependent = a from congrArg Prod.fst hpair]
      exact ha
    · obtain ⟨e', he', hpair'⟩ := List.mem_map.mp hpair
      rw [← show e'.dependent = e.dependent from congrArg Prod.fst hpair']
      exact hlater e' he'

/-! ## Backward slices -/

theorem path_mono (h : g.Extends g') {d : Direction} (hpath : g.Path d f k o n) :
    g'.Path d f k o n := by
  obtain ⟨later, hedges, _⟩ := h.edges
  refine hpath.of_links fun a b hlink => ?_
  obtain ⟨p, he, hrule⟩ := hlink
  exact ⟨p, by rw [hedges]; exact List.mem_append_left _ he, hrule⟩

/-- Dependencies lead from old operations to old operations, along old edges. -/
theorem path_backward (hg : g.WellFormed) (h : g.Extends g') (hpath : g'.Path .backward f k o n)
    (ho : o ∈ g.nodes) : g.Path .backward f k o n := by
  obtain ⟨later, hedges, hlater⟩ := h.edges
  induction hpath with
  | nil => exact .nil _
  | @snoc k o e _ he hrule ih =>
      have hold := ih ho
      have hdependent : e.dependent ∈ g.nodes := hold.mem_nodes hg ho
      rw [hedges] at he
      rcases List.mem_append.mp he with he | he
      · exact .snoc hold he hrule
      · exact absurd hdependent (hlater e he)

/-- **A backward slice of an old operation** does not change. -/
theorem backward_slice (hg : g.WellFormed) (h : g.Extends g') (ho : o ∈ g.nodes) :
    g.slice ⟨.backward, f, limit⟩ o = g'.slice ⟨.backward, f, limit⟩ o := by
  refine HandleSet.ext fun n => ?_
  rw [mem_slice, mem_slice, and_iff_right ho, and_iff_right (h.nodes.subset ho)]
  refine exists_congr fun k => and_congr_right fun _ => ?_
  exact ⟨h.path_mono, fun hpath => h.path_backward hg hpath ho⟩

end Extends

end DependencyGraph

end ProgramSlice
