import ProgramSlice.Proofs.Graph.Origin
import ProgramSlice.Proofs.Graph.Reachability

/-!
# The slices of a graph

What holds of the five slices that a graph is asked for.  All of them are instances of one search,
and `slices_reach` says what each of them holds: the nodes at the ends of admitted paths.
-/

namespace ProgramSlice

namespace DependencyGraph

/-- **A slice is what paths reach.**  The backward slice of a node holds what paths from dependents
to dependencies reach from it within the limit, each edge by a chosen rule, and the forward slice
what paths in the other direction reach.  A slice of anything else is empty.  In a graph that came
about by the operations on graphs, slices hold nodes only. -/
theorem slices_reach (g : DependencyGraph) (o n : OperationId) (limit : Option Nat)
    (f : RuleFilter) :
    (n ∈ g.backwardSliceFiltered o limit f ↔
      o ∈ g.nodes ∧ ∃ k, (∀ m ∈ limit, k ≤ m) ∧ g.Path .backward f k o n) ∧
    (n ∈ g.forwardSliceFiltered o limit f ↔
      o ∈ g.nodes ∧ ∃ k, (∀ m ∈ limit, k ≤ m) ∧ g.Path .forward f k o n) ∧
    g.backwardSlice o limit = g.backwardSliceFiltered o limit ⟨true, true⟩ ∧
    g.forwardSlice o limit = g.forwardSliceFiltered o limit ⟨true, true⟩ ∧
    g.thinSlice o limit = g.backwardSliceFiltered o limit ⟨false, true⟩ ∧
    (g.Arises → (n ∈ g.backwardSliceFiltered o limit f ∨ n ∈ g.forwardSliceFiltered o limit f) →
      n ∈ g.nodes) := by
  refine ⟨mem_slice, mem_slice, rfl, rfl, rfl, ?_⟩
  rintro hg (h | h)
  · exact mem_nodes_of_mem_slice hg.wellFormed h
  · exact mem_nodes_of_mem_slice hg.wellFormed h

/-- A record of a cycle through operations that it does not list, with an edge from one of them to
itself. -/
def cycle : GraphRecord :=
  ⟨"cycle", [], [⟨⟨0⟩, ⟨1⟩, .data, [⟨0⟩]⟩, ⟨⟨1⟩, ⟨1⟩, .both, [⟨0⟩]⟩,
    ⟨⟨1⟩, ⟨2⟩, .sequencing, []⟩, ⟨⟨2⟩, ⟨0⟩, .both, []⟩]⟩

theorem slices_reach_cycle :
    ⟨2⟩ ∈ (ofRecord cycle).backwardSliceFiltered ⟨0⟩ (some 2) RuleFilter.all ∧
      ⟨2⟩ ∈ (ofRecord cycle).nodes := by
  have hslices := slices_reach (ofRecord cycle) ⟨0⟩ ⟨2⟩ (some 2) RuleFilter.all
  have hfirst : (ofRecord cycle).Path .backward RuleFilter.all 1 ⟨0⟩ ⟨1⟩ :=
    .snoc (e := ⟨⟨0⟩, ⟨1⟩, ⟨.data, .ofList [⟨0⟩]⟩⟩) (.nil ⟨0⟩) (by decide) (by decide)
  have hpath : (ofRecord cycle).Path .backward RuleFilter.all 2 ⟨0⟩ ⟨2⟩ :=
    .snoc (e := ⟨⟨1⟩, ⟨2⟩, ⟨.sequencing, .ofList []⟩⟩) hfirst (by decide) (by decide)
  have hmem := hslices.1.mpr ⟨by decide, 2, by simp, hpath⟩
  exact ⟨hmem, hslices.2.2.2.2.2 (.loaded cycle) (Or.inl hmem)⟩

end DependencyGraph

end ProgramSlice
