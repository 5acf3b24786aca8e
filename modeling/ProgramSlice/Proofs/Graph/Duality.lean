import ProgramSlice.Proofs.Graph.Slices

/-!
# Slices in the two directions

Whether `b` is in the backward slice of `a` is found out by a search from `a`, and whether `a` is in
the forward slice of `b` by a search from `b`.  The two searches visit different operations in
different orders and stop at the limit at different places.  They agree because each of them tells
which paths there are, and a path can be walked from its other end (`Path.reverse`), over the same
edges and hence in as many steps.

The ends of a path count as well: a slice is empty unless it is taken from a node.  A path from a
node ends at a node, so one end may stand in for the other.
-/

namespace ProgramSlice

/-- The other direction. -/
def Direction.reverse : Direction → Direction
  | .backward => .forward
  | .forward => .backward

@[simp] theorem Edge.source_reverse (e : Edge) (d : Direction) :
    e.source d.reverse = e.target d := by
  cases d <;> rfl

@[simp] theorem Edge.target_reverse (e : Edge) (d : Direction) :
    e.target d.reverse = e.source d := by
  cases d <;> rfl

namespace DependencyGraph

variable {g : DependencyGraph} {d : Direction} {f : RuleFilter} {o n a b : OperationId} {k : Nat}

/-- An edge goes before a path that begins where the edge leads. -/
theorem Path.cons {e : Edge} (he : e ∈ g.edges)
    (hrule : f.sequencing = true ∧ e.provenance.type.includesSequencing = true ∨
      f.data = true ∧ e.provenance.type.includesData = true)
    (h : g.Path d f k (e.target d) n) : g.Path d f (k + 1) (e.source d) n := by
  generalize hstart : e.target d = o at h
  induction h with
  | nil o =>
      subst hstart
      exact .snoc (.nil _) he hrule
  | snoc _ he' hrule' ih => exact .snoc (ih hstart) he' hrule'

/-- **A path walked from its other end** is a path in the other direction, of the same length. -/
theorem Path.reverse (h : g.Path d f k o n) : g.Path d.reverse f k n o := by
  induction h with
  | nil o => exact .nil o
  | @snoc k o e _ he hrule ih =>
      rw [← Edge.target_reverse] at ih
      rw [← Edge.source_reverse]
      exact .cons he hrule ih

theorem path_forward_iff : g.Path .forward f k b a ↔ g.Path .backward f k a b :=
  ⟨fun h => h.reverse, fun h => h.reverse⟩

/-- **Backward and forward slices are dual.**  However a graph came about, an operation is in the
backward slice of another exactly if the other is in the forward slice of the first, for every limit
and whatever rules are chosen.  Neither of them has to be a node. -/
theorem slices_dual (hg : g.Arises) (a b : OperationId) (limit : Option Nat) (f : RuleFilter) :
    b ∈ g.backwardSliceFiltered a limit f ↔ a ∈ g.forwardSliceFiltered b limit f := by
  have hwell := hg.wellFormed
  have hbackward : b ∈ g.backwardSliceFiltered a limit f ↔
      a ∈ g.nodes ∧ ∃ k, (∀ m ∈ limit, k ≤ m) ∧ g.Path .backward f k a b := mem_slice
  have hforward : a ∈ g.forwardSliceFiltered b limit f ↔
      b ∈ g.nodes ∧ ∃ k, (∀ m ∈ limit, k ≤ m) ∧ g.Path .forward f k b a := mem_slice
  rw [hbackward, hforward]
  simp only [path_forward_iff]
  constructor
  · rintro ⟨ha, k, hk, hpath⟩
    exact ⟨hpath.mem_nodes hwell ha, k, hk, hpath⟩
  · rintro ⟨hb, k, hk, hpath⟩
    exact ⟨hpath.reverse.mem_nodes hwell hb, k, hk, hpath⟩

theorem slices_dual_cycle :
    (ofRecord cycle).Arises ∧
      ⟨2⟩ ∈ (ofRecord cycle).backwardSliceFiltered ⟨0⟩ (some 2) ⟨true, true⟩ ∧
      ⟨0⟩ ∈ (ofRecord cycle).forwardSliceFiltered ⟨2⟩ (some 2) ⟨true, true⟩ ∧
      ⟨2⟩ ∉ (ofRecord cycle).forwardSliceFiltered ⟨0⟩ (some 0) ⟨true, false⟩ := by
  have harises : (ofRecord cycle).Arises := .loaded cycle
  have hmem : ⟨2⟩ ∈ (ofRecord cycle).backwardSliceFiltered ⟨0⟩ (some 2) ⟨true, true⟩ := by
    decide +kernel
  have hnone : ⟨0⟩ ∉ (ofRecord cycle).backwardSliceFiltered ⟨2⟩ (some 0) ⟨true, false⟩ := by
    decide +kernel
  exact ⟨harises, hmem, (slices_dual harises ⟨0⟩ ⟨2⟩ _ _).mp hmem,
    mt (slices_dual harises ⟨2⟩ ⟨0⟩ _ _).mpr hnone⟩

end DependencyGraph

end ProgramSlice
