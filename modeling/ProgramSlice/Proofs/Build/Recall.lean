import ProgramSlice.Proofs.Build.Outcome

/-!
# What the trace of a pass says

Besides the graph a pass leaves a trace: the operation before each operation in its block, the last
writer of each symbol, and the assignments into targets that no symbol stands for.  All three are
the running state of the pass, overwritten as it goes along, and all three are told by positions.
`Findings.Recalls` says so of two of them; the last writers are part of `Findings.Tracks`, for the
graph depends on them.

Neither the settings nor what is recorded in the graph take part in it.
-/

namespace ProgramSlice

/-- Only an action that writes no symbol has an unresolved target. -/
theorem Operation.writtenSymbol_of_hasUnresolvedTarget {o : Operation}
    (h : o.hasUnresolvedTarget = true) : o.writtenSymbol = none := by
  obtain ⟨id, action, text, span⟩ := o
  cases action with
  | assign target value => exact Option.isNone_iff_eq_none.mp h
  | declare symbol initializer => cases h
  | bindParameter parameter value => cases h
  | evaluate e => cases h

namespace BuildTrace

variable {t : BuildTrace} {o a p : OperationId} {previous : Option OperationId}
  {operation : Operation}

@[simp] theorem previousInBlock_noteWrite :
    (t.noteWrite o operation).previousInBlock = t.previousInBlock := by
  rw [noteWrite]
  split
  · rfl
  · split <;> rfl

@[simp] theorem unresolvedTargets_notePrevious :
    (t.notePrevious o previous).unresolvedTargets = t.unresolvedTargets := by
  cases previous <;> rfl

/-- Noting a new operation adds the one before it, if there is one. -/
theorem get?_previousInBlock_note (hnew : t.previousInBlock.get? o = none) :
    (t.note o previous operation).previousInBlock.get? a = some p ↔
      (a = o ∧ previous = some p) ∨ t.previousInBlock.get? a = some p := by
  rw [note, previousInBlock_noteWrite]
  cases previous with
  | none => simp [notePrevious]
  | some q =>
      rw [notePrevious, HandleMap.get?_insert]
      by_cases ha : a = o
      · subst ha
        simp [hnew]
      · simp [ha]

/-- Noting an operation appends it to the unresolved ones if it is one of them. -/
theorem unresolvedTargets_note :
    (t.note o previous operation).unresolvedTargets
      = t.unresolvedTargets ++ if operation.hasUnresolvedTarget then [o] else [] := by
  rw [note, noteWrite]
  by_cases hunresolved : operation.hasUnresolvedTarget = true
  · rw [Operation.writtenSymbol_of_hasUnresolvedTarget hunresolved]
    simp [hunresolved]
  · cases operation.writtenSymbol with
    | none => simp [hunresolved]
    | some symbol => simp [hunresolved]

end BuildTrace

/-- An operation of a body stores into a target that no symbol stands for. -/
def ProcedureBody.leavesUnresolved (body : ProcedureBody) (o : OperationId) : Bool :=
  (body.store.get? o).any Operation.hasUnresolvedTarget

namespace Findings

variable {s : BuildSettings} {body : ProcedureBody} {n : Nat} {f : Findings} {v : Visit}
  {operation : Operation}

/-- What the trace says after the first `n` positions. -/
structure Recalls (body : ProcedureBody) (n : Nat) (f : Findings) : Prop where
  /-- Each operation is bound to the one at the position before, if both lie in one entry of the
  layout. -/
  previousInBlock : ∀ a p, f.trace.previousInBlock.get? a = some p ↔
    ∃ j, j + 1 < n ∧ body.layout.SameBlock (j + 1) j ∧
      body.layout.operations[j + 1]? = some a ∧ body.layout.operations[j]? = some p
  /-- The unresolved assignments are listed in traversal order. -/
  unresolvedTargets :
    f.trace.unresolvedTargets = (body.layout.operations.take n).filter body.leavesUnresolved

namespace Recalls

theorem begun (body : ProcedureBody) : Recalls body 0 (begun body) where
  previousInBlock := by
    intro a p
    refine iff_of_false (fun hnone => Option.some_ne_none p hnone.symm) ?_
    rintro ⟨j, hj, _⟩
    exact absurd hj (Nat.not_lt_zero _)
  unresolvedTargets := by simp [Findings.begun]

theorem get?_previousInBlock_of_notMem (h : f.Recalls body n) {o : OperationId}
    (ho : o ∉ body.layout.operations.take n) : f.trace.previousInBlock.get? o = none := by
  cases hp : f.trace.previousInBlock.get? o with
  | none => rfl
  | some p =>
      obtain ⟨j, hj, _, hat, _⟩ := (h.previousInBlock o p).mp hp
      exact absurd (BlockLayout.mem_take_operations.mpr ⟨j + 1, hj, hat⟩) ho

/-- **Taking in the next operation** keeps what is recalled in step. -/
theorem absorb (h : f.Recalls body n) (htracks : f.Tracks s body n)
    (hv : body.layout.visits[n]? = some v)
    (hstore : body.store.get? v.operation = some operation) (hnew : v.operation ∉ f.graph.nodes) :
    (f.absorb s v.operation v.previous operation).Recalls body (n + 1) where
  previousInBlock := by
    intro a p
    have hn := Tracks.getElem?_operations hv
    have hfresh : f.trace.previousInBlock.get? v.operation = none :=
      h.get?_previousInBlock_of_notMem (by rwa [← htracks.nodes])
    rw [Findings.absorb, BuildTrace.get?_previousInBlock_note hfresh, h.previousInBlock]
    constructor
    · rintro (⟨rfl, hprevious⟩ | ⟨j, hj, hblock, ha, hp⟩)
      · obtain ⟨j, rfl, hblock, hp⟩ := (BlockLayout.previous_of_visits hv).mp hprevious
        exact ⟨j, Nat.lt_succ_self _, hblock, hn, hp⟩
      · exact ⟨j, Nat.lt_succ_of_lt hj, hblock, ha, hp⟩
    · rintro ⟨j, hj, hblock, ha, hp⟩
      rcases Nat.lt_or_eq_of_le (Nat.le_of_lt_succ hj) with hlt | rfl
      · exact Or.inr ⟨j, hlt, hblock, ha, hp⟩
      · rw [hn] at ha
        exact Or.inl ⟨(Option.some.inj ha).symm,
          (BlockLayout.previous_of_visits hv).mpr ⟨j, rfl, hblock, hp⟩⟩
  unresolvedTargets := by
    have hlast : body.leavesUnresolved v.operation = operation.hasUnresolvedTarget := by
      rw [ProcedureBody.leavesUnresolved, hstore]
      rfl
    rw [Findings.absorb, BuildTrace.unresolvedTargets_note, h.unresolvedTargets,
      List.take_add_one, Tracks.getElem?_operations hv, Option.toList_some, List.filter_append,
      List.filter_singleton, hlast, Bool.cond_eq_ite]

/-- **A run** recalls the positions that it has visited. -/
theorem of_upTo (hn : n ≤ body.layout.operations.length) (hclean : ∀ k < n, ¬ body.Faulty s k)
    (hf : upTo s body n = .ok f) : f.Recalls body n :=
  upTo_induction (P := fun n f => f.Recalls body n) (m := 0) rfl (Nat.zero_le n) hn hclean
    (.begun body) (fun htracks hv hstore hnew h => h.absorb htracks hv hstore hnew) hf

end Recalls

end Findings

/-! ## The build -/

section Build

variable {s : BuildSettings} {body : ProcedureBody} {g : DependencyGraph} {t : BuildTrace}

theorem build_of_result (h : (buildWithTrace s body).result = .ok (g, t)) :
    build s body = .ok g := by
  rw [build, h]
  rfl

/-- **A build ends** with findings that track and recall the whole traversal. -/
theorem findings_of_result (h : (buildWithTrace s body).result = .ok (g, t)) :
    ∃ f : Findings, f.graph = g ∧ f.trace = t ∧
      Findings.upTo s body body.layout.operations.length = .ok f ∧
      f.Tracks s body body.layout.operations.length ∧
      f.Recalls body body.layout.operations.length := by
  have hclean := clean_of_build (build_of_result h)
  obtain ⟨f, hf, htracks⟩ := Findings.upTo_of_clean le_rfl fun k _ => hclean k
  rw [result_buildWithTrace, hf] at h
  cases h
  exact ⟨f, rfl, rfl, hf, htracks, .of_upTo le_rfl (fun k _ => hclean k) hf⟩

end Build

end ProgramSlice
