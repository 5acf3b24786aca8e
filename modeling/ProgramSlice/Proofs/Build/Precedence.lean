import ProgramSlice.Proofs.Build.Edges
import ProgramSlice.Proofs.Graph.Reachability

/-!
# Dependencies point back

No rule looks ahead, so the edges of a built graph lead from an operation to one at or before it in
the traversal.  That an operation stands at or before another (`BlockLayout.AtOrBefore`) is a
partial order where no operation is listed twice, and so what holds of edges holds of paths
(`Path.of_edges`) and of slices.  The order is not strict: an operation that reads what it writes
depends on itself.  There is no other cycle, for operations that reach each other would stand before
each other (`slices_ordered`).
-/

namespace ProgramSlice

/-! ## The order of a traversal -/

namespace BlockLayout

variable {l : BlockLayout} {a b c : OperationId}

/-- The operation `b` stands at or before the operation `a` in the traversal. -/
def AtOrBefore (l : BlockLayout) (b a : OperationId) : Prop :=
  ∃ i j : Nat, l.operations[i]? = some a ∧ l.operations[j]? = some b ∧ j ≤ i

theorem AtOrBefore.refl (ha : a ∈ l.operations) : l.AtOrBefore a a := by
  obtain ⟨i, hi⟩ := List.mem_iff_getElem?.mp ha
  exact ⟨i, i, hi, hi, le_rfl⟩

theorem AtOrBefore.trans (hl : l.operations.Nodup) (hcb : l.AtOrBefore c b)
    (hba : l.AtOrBefore b a) : l.AtOrBefore c a := by
  obtain ⟨j, k, hj, hk, hkj⟩ := hcb
  obtain ⟨i, j', hi, hj', hji⟩ := hba
  obtain rfl := position_inj hl hj hj'
  exact ⟨i, k, hi, hk, hkj.trans hji⟩

theorem AtOrBefore.antisymm (hl : l.operations.Nodup) (hba : l.AtOrBefore b a)
    (hab : l.AtOrBefore a b) : a = b := by
  obtain ⟨i, j, hi, hj, hji⟩ := hba
  obtain ⟨j', i', hj', hi', hij⟩ := hab
  obtain rfl := position_inj hl hi hi'
  obtain rfl := position_inj hl hj hj'
  obtain rfl := Nat.le_antisymm hij hji
  exact Option.some.inj (hi.symm.trans hj)

end BlockLayout

/-! ## Edges, paths and slices -/

/-- **What relates the ends of edges relates the ends of paths,** if it is reflexive at the start
and transitive. -/
theorem DependencyGraph.Path.of_edges {g : DependencyGraph} {d : Direction} {f : RuleFilter}
    {R : OperationId → OperationId → Prop} {k : Nat} {o n : OperationId} (hpath : g.Path d f k o n)
    (hrefl : R o o) (htrans : ∀ {a b c}, R a b → R b c → R a c)
    (hedge : ∀ e ∈ g.edges, R (e.source d) (e.target d)) : R o n := by
  induction hpath with
  | nil => exact hrefl
  | snoc _ he _ ih => exact htrans (ih hrefl) (hedge _ he)

section Build

variable {s : BuildSettings} {body : ProcedureBody} {g : DependencyGraph} {a b o n : OperationId}
  {limit limit' : Option Nat} {f f' : RuleFilter}

/-- **An edge points back,** to an operation at or before the one that depends. -/
theorem atOrBefore_of_mem_edges (h : build s body = .ok g) {e : Edge} (he : e ∈ g.edges) :
    body.layout.AtOrBefore e.dependency e.dependent := by
  obtain ⟨i, j, hi, hj⟩ := exists_positions h he
  obtain ⟨r, hgives⟩ := (exists_edge_iff h hi hj).mp ⟨e.provenance, he⟩
  exact ⟨i, j, hi, hj, hgives.le⟩

theorem atOrBefore_of_mem_backward (h : build s body = .ok g)
    (hb : b ∈ g.backwardSliceFiltered a limit f) : body.layout.AtOrBefore b a := by
  obtain ⟨ha, k, _, hpath⟩ := DependencyGraph.mem_slice.mp hb
  rw [nodes_of_build h] at ha
  exact hpath.of_edges (R := fun a b => body.layout.AtOrBefore b a) (.refl ha)
    (fun hba hcb => hcb.trans (nodup_of_build h) hba) fun e he => atOrBefore_of_mem_edges h he

theorem atOrBefore_of_mem_forward (h : build s body = .ok g)
    (hb : b ∈ g.forwardSliceFiltered a limit f) : body.layout.AtOrBefore a b := by
  obtain ⟨ha, k, _, hpath⟩ := DependencyGraph.mem_slice.mp hb
  rw [nodes_of_build h] at ha
  exact hpath.of_edges (R := body.layout.AtOrBefore) (.refl ha)
    (fun hab hbc => hab.trans (nodup_of_build h) hbc) fun e he => atOrBefore_of_mem_edges h he

end Build

/-- **Dependencies point back.**  In a built graph every edge leads to an operation at or before the
one that depends.  A backward slice holds operations at or before its target only, and a forward
slice operations at or after its source only, whatever the limit and the rules.  Two operations of
which each is in a backward slice of the other are the same operation. -/
theorem slices_ordered {s : BuildSettings} {body : ProcedureBody} {g : DependencyGraph}
    (h : build s body = .ok g) :
    (∀ e ∈ g.edges, body.layout.AtOrBefore e.dependency e.dependent) ∧
    (∀ a b limit f, b ∈ g.backwardSliceFiltered a limit f → body.layout.AtOrBefore b a) ∧
    (∀ a b limit f, b ∈ g.forwardSliceFiltered a limit f → body.layout.AtOrBefore a b) ∧
    ∀ a b limit limit' f f', b ∈ g.backwardSliceFiltered a limit f →
      a ∈ g.backwardSliceFiltered b limit' f' → a = b := by
  refine ⟨fun e he => atOrBefore_of_mem_edges h he,
    fun a b limit f hb => atOrBefore_of_mem_backward h hb,
    fun a b limit f hb => atOrBefore_of_mem_forward h hb, fun a b limit limit' f f' hb ha => ?_⟩
  exact (atOrBefore_of_mem_backward h hb).antisymm (nodup_of_build h)
    (atOrBefore_of_mem_backward h ha)

theorem slices_ordered_sharedNumbers :
    ∃ g, build {} sharedNumbers = .ok g ∧ ⟨0⟩ ∈ g.thinSlice ⟨3⟩ (some 2) ∧
      sharedNumbers.layout.AtOrBefore ⟨0⟩ ⟨3⟩ ∧ ⟨3⟩ ∉ g.backwardSlice ⟨0⟩ none := by
  have hthin : ((build {} sharedNumbers).toOption.any fun g =>
      ⟨0⟩ ∈ g.thinSlice ⟨3⟩ (some 2)) = true := by decide +kernel
  cases hg : build {} sharedNumbers with
  | error e =>
      rw [hg] at hthin
      cases hthin
  | ok g =>
      rw [hg] at hthin
      have hmem : ⟨0⟩ ∈ g.thinSlice ⟨3⟩ (some 2) := of_decide_eq_true hthin
      obtain ⟨_, hbackward, _, hcycle⟩ := slices_ordered hg
      refine ⟨g, rfl, hmem, hbackward _ _ _ _ hmem, fun hback => ?_⟩
      -- otherwise the two operations would be the same
      exact absurd (hcycle _ _ _ _ _ _ hmem hback) (by decide)

end ProgramSlice
