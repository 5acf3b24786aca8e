import ProgramSlice.Proofs.Build.Edges
import ProgramSlice.Proofs.Build.Recall
import ProgramSlice.Proofs.Graph.Extension

/-!
# Cutting a body short

A body may be cut behind any of its operations: some leading blocks are kept and a leading part of
the block behind them (`BlockLayout.cut`).  What a build derives of the operations that are kept
does not depend on those that were cut off.

The visits of the cut body are the first visits of the whole one (`visits_cut`), so the build of the
cut body is the build of the whole one stopped early (`upTo_cut`).  What follows behind that moment
extends the graph, since an operation is taken in only if it was not seen before: this is where
listing an operation twice would make earlier operations depend on later ones (`extends_of_upTo`).
The traces of the two moments are compared by positions.
-/

namespace ProgramSlice

/-! ## The cut body -/

/-- The stops at the first operations of a block are its first stops. -/
theorem BasicBlock.visits_take (ordinal : UInt64) (previous : Option OperationId)
    (operations : List OperationId) (m : Nat) :
    visits ordinal previous (operations.take m) = (visits ordinal previous operations).take m := by
  induction operations generalizing previous m with
  | nil => simp [visits]
  | cons o rest ih =>
      cases m with
      | zero => simp [visits]
      | succ m => rw [List.take_succ_cons, visits, visits, List.take_succ_cons, ih]

namespace BlockLayout

/-- The first `k` blocks and, if a part of the next block is kept, that many of its operations. -/
def cut (l : BlockLayout) (k : Nat) (part : Option Nat) : BlockLayout :=
  ⟨l.blocks.take k ++ (part.bind fun m =>
    l.blocks[k]?.map fun block => { block with operations := block.operations.take m }).toList⟩

variable {l : BlockLayout} {k : Nat} {part : Option Nat}

/-- **The visits of a cut layout** are the first visits of the whole one. -/
theorem visits_cut (l : BlockLayout) (k : Nat) (part : Option Nat) :
    (l.cut k part).visits <+: l.visits := by
  have hsplit : l.blocks = l.blocks.take k ++ l.blocks.drop k := (List.take_append_drop k _).symm
  rw [visits_eq_flatMap, visits_eq_flatMap, cut, List.flatMap_append]
  conv_rhs => rw [hsplit, List.flatMap_append]
  refine (List.prefix_append_right_inj _).mpr ?_
  -- what is kept of the next block comes first in what was behind the leading blocks
  cases part with
  | none => exact List.nil_prefix
  | some m =>
      cases hblock : l.blocks[k]? with
      | none => exact List.nil_prefix
      | some block =>
          obtain ⟨hlt, rfl⟩ := List.getElem?_eq_some_iff.mp hblock
          rw [List.drop_eq_getElem_cons hlt, List.flatMap_cons]
          simp only [Option.bind_some, Option.map_some, Option.toList_some, List.flatMap_cons,
            List.flatMap_nil, List.append_nil, BasicBlock.visits_take]
          exact ((List.take_prefix m _).filterMap _).trans (List.prefix_append _ _)

theorem operations_cut (l : BlockLayout) (k : Nat) (part : Option Nat) :
    (l.cut k part).operations <+: l.operations := by
  rw [← map_operation_visits, ← map_operation_visits l]
  exact (visits_cut l k part).map _

end BlockLayout

/-- A body of which only leading blocks and a leading part of the next block are kept. -/
def ProcedureBody.cut (body : ProcedureBody) (k : Nat) (part : Option Nat) : ProcedureBody :=
  { body with layout := body.layout.cut k part }

namespace Findings

variable {s : BuildSettings} {body : ProcedureBody} {k m n : Nat} {part : Option Nat}
  {f f' : Findings}

/-- **The build of a cut body** is the build of the whole body, stopped early. -/
theorem upTo_cut : upTo s (body.cut k part) (body.cut k part).layout.operations.length
    = upTo s body (body.cut k part).layout.operations.length := by
  have hprefix : (body.cut k part).layout.visits <+: body.layout.visits :=
    BlockLayout.visits_cut body.layout k part
  have htake := List.prefix_iff_eq_take.mp hprefix
  have hall : (body.cut k part).layout.visits.take (body.cut k part).layout.visits.length
      = body.layout.visits.take (body.cut k part).layout.visits.length := by
    rw [List.take_length, ← htake]
  rw [upTo, upTo, ← BlockLayout.length_visits, hall]
  -- a visit looks at the name and the store of a body only, and these are not cut
  rfl

theorem extends_absorb {v : Visit} {operation : Operation} (hf : f.graph.WellFormed)
    (hnew : v.operation ∉ f.graph.nodes) :
    f.graph.Extends (f.absorb s v.operation v.previous operation).graph :=
  DependencyGraph.addCauses_induction ((DependencyGraph.Extends.refl _).addNode _)
    fun _ b r h => h.addDependency hf hnew b r

/-- **As a run goes on,** its graph is extended. -/
theorem extends_of_upTo (hclean : ∀ i, ¬ body.Faulty s i) (hm : upTo s body m = .ok f) (hmn : m ≤ n)
    (hn : n ≤ body.layout.operations.length) (hf' : upTo s body n = .ok f') :
    f.graph.Extends f'.graph :=
  upTo_induction (P := fun _ f' => f.graph.Extends f'.graph) hm hmn hn (fun i _ => hclean i)
    (.refl _) (fun htracks _ _ hnew h => h.trans (extends_absorb htracks.wellFormed hnew)) hf'

/-! ## Two moments of one trace -/

/-- Of the first positions the trace says later what it said before. -/
theorem Recalls.previousInBlock_eq (h : f.Recalls body m) (h' : f'.Recalls body n) (hmn : m ≤ n)
    (hnodup : body.layout.operations.Nodup) (o : OperationId) :
    f.trace.previousInBlock.get? o
      = if o ∈ body.layout.operations.take m then f'.trace.previousInBlock.get? o else none := by
  by_cases ho : o ∈ body.layout.operations.take m
  · rw [if_pos ho]
    refine Option.ext fun p => ?_
    rw [h.previousInBlock, h'.previousInBlock]
    constructor
    · rintro ⟨j, hj, hblock, hat, hp⟩
      exact ⟨j, hj.trans_le hmn, hblock, hat, hp⟩
    · rintro ⟨j, _, hblock, hat, hp⟩
      -- the operation stands at one position, and that is one of the first
      have hj := (BlockLayout.mem_take_operations_iff_lt hnodup hat).mp ho
      exact ⟨j, hj, hblock, hat, hp⟩
  · rw [if_neg ho, h.get?_previousInBlock_of_notMem ho]

theorem Recalls.unresolvedTargets_prefix (h : f.Recalls body m) (h' : f'.Recalls body n)
    (hmn : m ≤ n) : f.trace.unresolvedTargets <+: f'.trace.unresolvedTargets := by
  rw [h.unresolvedTargets, h'.unresolvedTargets]
  exact (List.take_prefix_take_left hmn).filter _

end Findings

/-- **What is derived of the first operations does not depend on the later ones.**  If a body
builds, it builds wherever it is cut.  The nodes, the edges with all that is known of them, and the
unresolved assignments of the cut body are the first ones of the whole body, and the operations
before are those of the whole body, as far as operations were kept.  The backward slices of the
operations that were kept are the same, by whatever rules and for every limit. -/
theorem build_of_cut {s : BuildSettings} {body : ProcedureBody} {g : DependencyGraph}
    {t : BuildTrace} (h : (buildWithTrace s body).result = .ok (g, t)) (k : Nat)
    (part : Option Nat) :
    ∃ g' t', (buildWithTrace s (body.cut k part)).result = .ok (g', t') ∧
      g'.nodes = (body.cut k part).layout.operations ∧ g'.nodes <+: g.nodes ∧
      g'.edges <+: g.edges ∧ t'.unresolvedTargets <+: t.unresolvedTargets ∧
      (∀ o, t'.previousInBlock.get? o
        = if o ∈ g'.nodes then t.previousInBlock.get? o else none) ∧
      ∀ o ∈ g'.nodes, ∀ (limit : Option Nat) (filter : RuleFilter),
        g'.backwardSliceFiltered o limit filter = g.backwardSliceFiltered o limit filter := by
  have hclean := clean_of_build (build_of_result h)
  have hnodup := nodup_of_build (build_of_result h)
  obtain ⟨f, rfl, rfl, hf, htracks, hrecalls⟩ := findings_of_result h
  have hprefix : (body.cut k part).layout.operations <+: body.layout.operations :=
    BlockLayout.operations_cut body.layout k part
  have hle := hprefix.length_le
  obtain ⟨f', hf', htracks'⟩ := Findings.upTo_of_clean hle fun i _ => hclean i
  have hrecalls' : f'.Recalls body _ := .of_upTo hle (fun i _ => hclean i) hf'
  have hextends := Findings.extends_of_upTo hclean hf' hle le_rfl hf
  have hnodes := htracks'.nodes
  obtain ⟨later, hedges, _⟩ := hextends.edges
  refine ⟨f'.graph, f'.trace, ?_, ?_, hextends.nodes, ⟨later, hedges.symm⟩,
    hrecalls'.unresolvedTargets_prefix hrecalls hle, fun o => ?_, fun o ho limit filter => ?_⟩
  · rw [result_buildWithTrace, Findings.upTo_cut, hf']
    rfl
  · rw [hnodes]
    exact (List.prefix_iff_eq_take.mp hprefix).symm
  · rw [hnodes]
    exact hrecalls'.previousInBlock_eq hrecalls hle hnodup o
  · exact hextends.backward_slice htracks'.wellFormed ho

/-- Cut within its last block, behind the write of the field. -/
theorem build_of_cut_sharedNumbers :
    ∃ g t g' t', (buildWithTrace {} sharedNumbers).result = .ok (g, t) ∧
      (buildWithTrace {} (sharedNumbers.cut 2 (some 1))).result = .ok (g', t') ∧
      g'.nodes = [⟨0⟩, ⟨1⟩, ⟨2⟩] ∧ g'.edges <+: g.edges ∧
      g'.thinSlice ⟨2⟩ none = g.thinSlice ⟨2⟩ none := by
  have hok : (buildWithTrace {} sharedNumbers).result.isOk = true := by decide +kernel
  cases hresult : (buildWithTrace {} sharedNumbers).result with
  | error e =>
      rw [hresult] at hok
      cases hok
  | ok found =>
      obtain ⟨g, t⟩ := found
      obtain ⟨g', t', hcut, hnodes, _, hedges, _, _, hslices⟩ := build_of_cut hresult 2 (some 1)
      have hkept : g'.nodes = [⟨0⟩, ⟨1⟩, ⟨2⟩] := by
        rw [hnodes]
        decide
      have hmem : ⟨2⟩ ∈ g'.nodes := by
        rw [hkept]
        decide
      exact ⟨g, t, g', t', rfl, hcut, hkept, hedges, hslices _ hmem none RuleFilter.dataOnly⟩

end ProgramSlice
