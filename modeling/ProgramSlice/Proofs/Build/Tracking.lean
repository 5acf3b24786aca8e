import ProgramSlice.Proofs.Build.Rules
import ProgramSlice.Proofs.Build.Visit

/-!
# What a pass has found out so far

`Findings.Tracks` says what is known after the first positions of a traversal: the nodes are the
operations there, the graph cites what the rules give there, and the last writers are the last of
these positions to write.  It holds before the first visit (`Tracks.begun`), and taking in the
next operation keeps it (`Tracks.absorb`).

That the graph has no other nodes is part of it and not obvious: recording a dependency registers
both of its ends.  The ends are registered already, for the operation before was visited and so
was every last writer.
-/

namespace ProgramSlice

namespace Findings

variable {s : BuildSettings} {body : ProcedureBody} {n : Nat} {f : Findings} {v : Visit}
  {operation : Operation}

/-- What is known after the first `n` positions. -/
structure Tracks (s : BuildSettings) (body : ProcedureBody) (n : Nat) (f : Findings) : Prop where
  /-- The nodes are the operations that were visited, in that order. -/
  nodes : f.graph.nodes = body.layout.operations.take n
  /-- The lists of the graph are in order. -/
  wellFormed : f.graph.WellFormed
  /-- No type goes beyond the reasons for it. -/
  coherent : f.graph.Coherent
  /-- The graph cites what the rules give for the visited positions, and nothing else. -/
  cites : ∀ a b r, f.graph.Cites a b r ↔ ∃ i j, i < n ∧ body.layout.operations[i]? = some a ∧
    body.layout.operations[j]? = some b ∧ body.Gives s i j r
  /-- The last writers stand at the last of the visited positions to write. -/
  lastWriter : ∀ symbol o, f.trace.lastWriter.get? symbol = some o ↔
    ∃ j, body.LastWriteBefore symbol n j ∧ body.layout.operations[j]? = some o

namespace Tracks

/-- Nothing is known before the first visit. -/
theorem begun (s : BuildSettings) (body : ProcedureBody) : Tracks s body 0 (begun body) where
  nodes := by simp [Findings.begun]
  wellFormed := .empty body.name
  coherent := .empty body.name
  cites := by
    intro a b r
    refine iff_of_false (DependencyGraph.not_cites_empty _) ?_
    rintro ⟨i, j, hi, _⟩
    exact absurd hi (Nat.not_lt_zero i)
  lastWriter := by
    intro symbol o
    refine iff_of_false (fun hnone => Option.some_ne_none o hnone.symm) ?_
    rintro ⟨j, hj, _⟩
    exact absurd hj.1.1 (Nat.not_lt_zero j)

/-! ## The next operation -/

section Step

variable (h : f.Tracks s body n) (hv : body.layout.visits[n]? = some v)
  (hstore : body.store.get? v.operation = some operation)

include hv in
theorem getElem?_operations : body.layout.operations[n]? = some v.operation :=
  BlockLayout.operation_of_visits hv

include hv hstore in
theorem operationAt_eq : body.operationAt n = some operation := by
  rw [ProcedureBody.operationAt, getElem?_operations hv, Option.bind_some, hstore]

include h hv in
/-- An operation that was not seen before is the next node. -/
theorem nodes_addNode (hnew : v.operation ∉ f.graph.nodes) :
    (f.graph.addNode v.operation).nodes = body.layout.operations.take (n + 1) := by
  rw [DependencyGraph.nodes_addNode_of_notMem hnew, h.nodes, List.take_add_one,
    getElem?_operations hv, Option.toList_some]

include h hv in
theorem nodeCount_addNode (hnew : v.operation ∉ f.graph.nodes) :
    (f.graph.addNode v.operation).nodeCount = n + 1 := by
  have hn := BlockLayout.lt_of_visits hv
  rw [DependencyGraph.nodeCount, h.nodes_addNode hv hnew, List.length_take]
  omega

include h hv in
/-- Every operation at the next position or before it is registered with the next one. -/
theorem mem_nodes_addNode {j : Nat} {o : OperationId} (hj : j ≤ n)
    (ho : body.layout.operations[j]? = some o) : o ∈ (f.graph.addNode v.operation).nodes := by
  rw [DependencyGraph.mem_nodes_addNode, h.nodes]
  rcases Nat.lt_or_eq_of_le hj with hlt | rfl
  · exact Or.inl (BlockLayout.mem_take_operations.mpr ⟨j, hlt, ho⟩)
  · rw [getElem?_operations hv] at ho
    exact Or.inr (Option.some.inj ho).symm

include h hv hstore in
/-- The last writers when the next operation is noted: its write counts before its reads. -/
theorem get?_lastWriter_note {symbol : SymbolId} {o : OperationId} :
    (f.trace.note v.operation v.previous operation).lastWriter.get? symbol = some o ↔
      ∃ j, body.LastWrite symbol n j ∧ body.layout.operations[j]? = some o := by
  have hat := operationAt_eq hv hstore
  rw [BuildTrace.get?_lastWriter_note]
  by_cases hw : operation.writtenSymbol = some symbol
  · have hwrites : body.WritesAt n symbol := ⟨operation, hat, hw⟩
    simp only [if_pos hw, ProcedureBody.lastWrite_of_writesAt hwrites, exists_eq_left,
      getElem?_operations hv]
  · have hwrites : ¬ body.WritesAt n symbol := by
      rintro ⟨operation', hat', hw'⟩
      rw [hat] at hat'
      cases hat'
      exact hw hw'
    simp only [if_neg hw, ProcedureBody.lastWrite_of_not_writesAt hwrites]
    exact h.lastWriter symbol o

include h hv hstore in
/-- What the next operation gives rise to is what the rules give for its position. -/
theorem mem_causes {b : OperationId} {r : Reason} :
    (b, r) ∈ causes s (f.trace.note v.operation v.previous operation) v.previous operation ↔
      ∃ j, body.layout.operations[j]? = some b ∧ body.Gives s n j r := by
  rw [ProgramSlice.mem_causes]
  constructor
  · rintro (⟨hs, hprevious, rfl⟩ | ⟨symbol, hd, hread, hwriter, rfl⟩)
    · obtain ⟨j, rfl, hblock, hj⟩ := (BlockLayout.previous_of_visits hv).mp hprevious
      exact ⟨j, hj, .sequencing hs hblock⟩
    · obtain ⟨j, hlast, hj⟩ := (h.get?_lastWriter_note hv hstore).mp hwriter
      exact ⟨j, hj, .data hd ⟨operation, operationAt_eq hv hstore, hread⟩ hlast⟩
  · rintro ⟨j, hj, hgives⟩
    cases hgives with
    | sequencing hs hblock =>
        exact Or.inl ⟨hs, (BlockLayout.previous_of_visits hv).mpr ⟨j, rfl, hblock, hj⟩, rfl⟩
    | data hd hread hlast =>
        obtain ⟨operation', hat', hreads⟩ := hread
        rw [operationAt_eq hv hstore] at hat'
        cases hat'
        exact Or.inr ⟨_, hd, hreads, (h.get?_lastWriter_note hv hstore).mpr ⟨j, hlast, hj⟩, rfl⟩

include h hv hstore in
/-- The dependencies of the next operation add no node. -/
theorem nodes_absorb : (f.absorb s v.operation v.previous operation).graph.nodes
    = (f.graph.addNode v.operation).nodes := by
  refine DependencyGraph.nodes_addCauses (h.mem_nodes_addNode hv le_rfl (getElem?_operations hv)) ?_
  rintro ⟨b, r⟩ hcause
  obtain ⟨j, hj, hgives⟩ := (h.mem_causes hv hstore).mp hcause
  exact h.mem_nodes_addNode hv hgives.le hj

include h hv hstore in
theorem cites_absorb (a b : OperationId) (r : Reason) :
    (f.absorb s v.operation v.previous operation).graph.Cites a b r ↔
      ∃ i j, i < n + 1 ∧ body.layout.operations[i]? = some a ∧
        body.layout.operations[j]? = some b ∧ body.Gives s i j r := by
  have hn := getElem?_operations hv
  rw [absorb, DependencyGraph.cites_addCauses, h.mem_causes hv hstore,
    DependencyGraph.cites_addNode, h.cites]
  constructor
  · rintro (⟨rfl, j, hj, hgives⟩ | ⟨i, j, hi, ha, hb, hgives⟩)
    · exact ⟨n, j, Nat.lt_succ_self n, hn, hj, hgives⟩
    · exact ⟨i, j, Nat.lt_succ_of_lt hi, ha, hb, hgives⟩
  · rintro ⟨i, j, hi, ha, hb, hgives⟩
    rcases Nat.lt_or_eq_of_le (Nat.le_of_lt_succ hi) with hlt | rfl
    · exact Or.inr ⟨i, j, hlt, ha, hb, hgives⟩
    · rw [hn] at ha
      exact Or.inl ⟨(Option.some.inj ha).symm, j, hb, hgives⟩

include h hv hstore in
/-- **Taking in the next operation** keeps track, if the operation was not seen before. -/
theorem absorb (hnew : v.operation ∉ f.graph.nodes) :
    (f.absorb s v.operation v.previous operation).Tracks s body (n + 1) where
  nodes := by
    rw [h.nodes_absorb hv hstore, h.nodes_addNode hv hnew]
  wellFormed := (h.wellFormed.addNode _).addCauses _ _
  coherent := DependencyGraph.addCauses_induction (h.coherent.addNode _)
    fun _ b r hg => hg.addDependency _ b r
  cites := h.cites_absorb hv hstore
  lastWriter := by
    intro symbol o
    simp only [ProcedureBody.lastWriteBefore_succ]
    exact h.get?_lastWriter_note hv hstore

end Step

end Tracks

end Findings

end ProgramSlice
