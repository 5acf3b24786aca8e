import Mathlib.Order.SuccPred.Archimedean
import ProgramSlice.Proofs.Build.Precedence
import ProgramSlice.Proofs.Build.Recall

/-!
# The trace of a finished pass

While a pass goes on, its trace is overwritten: a later write of a symbol hides an earlier one, and
the operation before is forgotten at the end of each block.  What is left in the end is told by the
body alone, without a pass (`BuildTrace.Describes`).

* Each operation but the first of its block is bound to its neighbour in that block.
* Each symbol that is written at all is bound to the last operation to write it.
* The unresolved assignments are those whose target is no reference, in traversal order.

The settings are not among what a trace is told by, so all builds of a body that succeed leave one
trace.  The last writers of the trace and the data rule speak of the same writes: the rule asks for
the last one so far, the trace for the last one of all, which stands there or later.
-/

namespace ProgramSlice

/-! ## Targets -/

/-- Expressions that a symbol stands for: references to locals, parameters and fields. -/
inductive Expression.IsReference : Expression → Prop
  | localRef (symbol : SymbolId) : IsReference (.localRef symbol)
  | parameterRef (symbol : SymbolId) : IsReference (.parameterRef symbol)
  | fieldRef (owner : Option Expression) (field : SymbolId) : IsReference (.fieldRef owner field)

theorem Expression.referencedSymbol_eq_none_iff {e : Expression} :
    e.referencedSymbol = none ↔ ¬ e.IsReference := by
  constructor
  · rintro hnone (_ | _ | _) <;> simp [referencedSymbol] at hnone
  · intro hnot
    cases e with
    | localRef symbol => exact absurd (.localRef symbol) hnot
    | parameterRef symbol => exact absurd (.parameterRef symbol) hnot
    | fieldRef owner field => exact absurd (.fieldRef owner field) hnot
    | _ => rfl

namespace ProcedureBody

variable {s : BuildSettings} {body : ProcedureBody} {i j : Nat} {symbol : SymbolId}
  {o : OperationId}

/-- An operation of a body assigns to a target that is no reference. -/
def AssignsUnresolved (body : ProcedureBody) (o : OperationId) : Prop :=
  ∃ operation target value, body.store.get? o = some operation ∧
    operation.action = .assign target value ∧ ¬ target.IsReference

theorem leavesUnresolved_iff : body.leavesUnresolved o = true ↔ body.AssignsUnresolved o := by
  simp only [leavesUnresolved, Option.any_eq_true, Operation.hasUnresolvedTarget,
    AssignsUnresolved]
  refine exists_congr fun operation => ?_
  cases haction : operation.action with
  | assign target value =>
      simp [Action.hasUnresolvedTarget, Expression.referencedSymbol_eq_none_iff]
  | _ => simp [Action.hasUnresolvedTarget]

/-! ## The last write of all -/

theorem WritesAt.lt_length (h : body.WritesAt i symbol) : i < body.layout.operations.length := by
  obtain ⟨operation, hat, -⟩ := h
  obtain ⟨o, ho, -⟩ := Option.bind_eq_some_iff.mp hat
  exact (List.getElem?_eq_some_iff.mp ho).1

theorem lastWriteBefore_length : body.LastWriteBefore symbol body.layout.operations.length j ↔
    IsGreatest {i | body.WritesAt i symbol} j := by
  have hset : {i | i < body.layout.operations.length ∧ body.WritesAt i symbol}
      = {i | body.WritesAt i symbol} := by
    ext i
    exact and_iff_right_of_imp WritesAt.lt_length
  rw [LastWriteBefore, hset]

/-- **If a symbol is written at all,** there is a last write of it. -/
theorem WritesAt.exists_last (h : body.WritesAt i symbol) :
    ∃ j o, i ≤ j ∧ IsGreatest {k | body.WritesAt k symbol} j ∧
      body.layout.operations[j]? = some o := by
  have hbounded : BddAbove {k | body.WritesAt k symbol} :=
    ⟨body.layout.operations.length, fun k hk => (WritesAt.lt_length hk).le⟩
  obtain ⟨j, hj⟩ := hbounded.exists_isGreatest_of_nonempty ⟨i, h⟩
  exact ⟨j, _, hj.2 h, hj, List.getElem?_eq_getElem hj.1.lt_length⟩

end ProcedureBody

/-! ## What a trace is told by -/

/-- A trace holds what a body says of itself. -/
structure BuildTrace.Describes (t : BuildTrace) (body : ProcedureBody) : Prop where
  /-- Each operation is bound to the one at the place before, in the same block. -/
  previousInBlock : ∀ a p, t.previousInBlock.get? a = some p ↔
    ∃ k i, body.layout.StandsAt k i p ∧ body.layout.StandsAt k (i + 1) a
  /-- Each symbol is bound to the operation at the last position that writes it. -/
  lastWriter : ∀ symbol o, t.lastWriter.get? symbol = some o ↔
    ∃ i, IsGreatest {j | body.WritesAt j symbol} i ∧ body.layout.operations[i]? = some o
  /-- The unresolved assignments are listed in traversal order, -/
  unresolved_sublist : t.unresolvedTargets.Sublist body.layout.operations
  /-- each once, -/
  unresolved_nodup : t.unresolvedTargets.Nodup
  /-- and they are the assignments whose target is no reference. -/
  mem_unresolved : ∀ o, o ∈ t.unresolvedTargets ↔
    o ∈ body.layout.operations ∧ body.AssignsUnresolved o

section Build

variable {s s' : BuildSettings} {body : ProcedureBody} {g g' : DependencyGraph} {t t' : BuildTrace}

theorem describes_of_build (h : (buildWithTrace s body).result = .ok (g, t)) :
    t.Describes body := by
  have hnodup := nodup_of_build (build_of_result h)
  obtain ⟨f, rfl, rfl, -, htracks, hrecalls⟩ := findings_of_result h
  have hunresolved := hrecalls.unresolvedTargets
  rw [List.take_length] at hunresolved
  constructor
  case previousInBlock =>
    intro a p
    have hplaces := BlockLayout.exists_sameBlock_succ_iff (l := body.layout) (a := a) (b := p)
    rw [hrecalls.previousInBlock]
    simp only [and_comm (b := body.layout.StandsAt _ (_ + 1) a)]
    rw [← hplaces]
    refine exists_congr fun j => and_iff_right_of_imp ?_
    rintro ⟨-, ha, -⟩
    exact (List.getElem?_eq_some_iff.mp ha).1
  case lastWriter =>
    intro symbol o
    rw [htracks.lastWriter]
    simp only [ProcedureBody.lastWriteBefore_length]
  case unresolved_sublist =>
    rw [hunresolved]
    exact List.filter_sublist
  case unresolved_nodup =>
    rw [hunresolved]
    exact hnodup.filter _
  case mem_unresolved =>
    intro o
    rw [hunresolved, List.mem_filter, ProcedureBody.leavesUnresolved_iff]

/-- **Two traces of one body are the same,** whatever settings they were made with. -/
theorem trace_unique (h : (buildWithTrace s body).result = .ok (g, t))
    (h' : (buildWithTrace s' body).result = .ok (g', t')) : t = t' := by
  obtain ⟨hprevious, hlast, -⟩ := describes_of_build h
  obtain ⟨hprevious', hlast', -⟩ := describes_of_build h'
  obtain ⟨f, rfl, rfl, -, -, hrecalls⟩ := findings_of_result h
  obtain ⟨f', rfl, rfl, -, -, hrecalls'⟩ := findings_of_result h'
  have hprevious_eq : f.trace.previousInBlock = f'.trace.previousInBlock :=
    HandleMap.ext fun a => Option.ext fun p => by rw [hprevious, hprevious']
  have hlast_eq : f.trace.lastWriter = f'.trace.lastWriter :=
    HandleMap.ext fun symbol => Option.ext fun o => by rw [hlast, hlast']
  have hunresolved_eq : f.trace.unresolvedTargets = f'.trace.unresolvedTargets :=
    hrecalls.unresolvedTargets.trans hrecalls'.unresolvedTargets.symm
  show BuildTrace.mk f.trace.previousInBlock f.trace.lastWriter f.trace.unresolvedTargets = f'.trace
  rw [hprevious_eq, hlast_eq, hunresolved_eq]

/-- A symbol on an edge was written where the edge leads, so it has a last writer there or later. -/
theorem exists_lastWriter_of_mem_symbols (h : (buildWithTrace s body).result = .ok (g, t))
    {e : Edge} (he : e ∈ g.edges) {symbol : SymbolId} (hsymbol : symbol ∈ e.provenance.symbols) :
    ∃ o, t.lastWriter.get? symbol = some o ∧ body.layout.AtOrBefore e.dependency o := by
  have hg := build_of_result h
  obtain ⟨i, j, hi, hj⟩ := exists_positions hg he
  cases (cites_of_mem_edges (r := .data symbol) hg hi hj he).mp hsymbol with
  | data _ _ hwrite =>
      obtain ⟨last, o, hle, hlast, ho⟩ := ProcedureBody.WritesAt.exists_last hwrite.1.2
      exact ⟨o, ((describes_of_build h).lastWriter symbol o).mpr ⟨last, hlast, ho⟩,
        last, j, ho, hj, hle⟩

/-- **The trace of a build is told by the body.**  Each operation but the first of its block is
bound to the one before it there, and no other operation is bound.  Each symbol that an operation
writes is bound to the last operation to write it, and no other symbol is bound.  The unresolved
assignments are those whose target is neither a local, a parameter nor a field reference, in
traversal order and each once.  Every other build of the body leaves the same trace, whatever its
settings.  A symbol on an edge has a last writer, at or behind the operation the edge leads to. -/
theorem trace_of_build (h : (buildWithTrace s body).result = .ok (g, t)) :
    t.Describes body ∧
    (∀ symbol, (∃ o, t.lastWriter.get? symbol = some o) ↔ ∃ i, body.WritesAt i symbol) ∧
    (∀ s' g' t', (buildWithTrace s' body).result = .ok (g', t') → t' = t) ∧
    ∀ e ∈ g.edges, ∀ symbol ∈ e.provenance.symbols,
      ∃ o, t.lastWriter.get? symbol = some o ∧ body.layout.AtOrBefore e.dependency o := by
  have hdescribes := describes_of_build h
  refine ⟨hdescribes, fun symbol => ⟨?_, ?_⟩, fun s' g' t' h' => trace_unique h' h,
    fun e he symbol hsymbol => exists_lastWriter_of_mem_symbols h he hsymbol⟩
  · rintro ⟨o, ho⟩
    obtain ⟨i, hi, -⟩ := (hdescribes.lastWriter symbol o).mp ho
    exact ⟨i, hi.1⟩
  · rintro ⟨i, hi⟩
    obtain ⟨j, o, -, hj, ho⟩ := hi.exists_last
    exact ⟨o, (hdescribes.lastWriter symbol o).mpr ⟨j, hj, ho⟩⟩

/-- A local variable whose elements are assigned to in two blocks, of which the later one also
writes the variable, behind the read of it. -/
def storedElements : ProcedureBody :=
  let x : SymbolId := ⟨0⟩
  let element : Expression := .elementAccess (.localRef x) (.int 0)
  let operation (n : UInt32) (action : Action) : Operation := ⟨⟨n⟩, action, none, none⟩
  { name := "storedElements"
    store := ⟨[operation 0 (.declare x (.int 1)), operation 1 (.assign element (.localRef x)),
      operation 2 (.assign (.localRef x) (.int 2)), operation 3 (.assign element element)]⟩
    layout := ⟨[⟨0, [⟨0⟩, ⟨1⟩]⟩, ⟨1, []⟩, ⟨1, [⟨3⟩, ⟨2⟩]⟩]⟩ }

theorem trace_of_build_storedElements :
    ∃ g t g', (buildWithTrace {} storedElements).result = .ok (g, t) ∧
      (buildWithTrace ⟨false, true, 4⟩ storedElements).result = .ok (g', t) ∧
      t.Describes storedElements ∧ t.unresolvedTargets = [⟨1⟩, ⟨3⟩] ∧
      ∃ e ∈ g.edges, e.pair = (⟨3⟩, ⟨0⟩) ∧ ∃ o, t.lastWriter.get? ⟨0⟩ = some o ∧
        storedElements.layout.AtOrBefore ⟨0⟩ o := by
  have hfound : ((buildWithTrace {} storedElements).result.toOption.any fun found =>
      found.2.unresolvedTargets = [⟨1⟩, ⟨3⟩] ∧
        found.1.edges.any fun e => e.pair = (⟨3⟩, ⟨0⟩) ∧ ⟨0⟩ ∈ e.provenance.symbols) = true := by
    decide +kernel
  have hdata : ((buildWithTrace ⟨false, true, 4⟩ storedElements).result.toOption.any fun found =>
      found.1.edges.length = 3) = true := by decide +kernel
  obtain ⟨⟨g, t⟩, hresult, hfound⟩ := exists_ok_of_any hfound
  obtain ⟨⟨g', t'⟩, hresult', -⟩ := exists_ok_of_any hdata
  obtain ⟨hdescribes, -, hsame, hsymbols⟩ := trace_of_build hresult
  obtain rfl := hsame _ _ _ hresult'
  obtain ⟨hunresolved, hedge⟩ := of_decide_eq_true hfound
  obtain ⟨e, he, hpair⟩ := List.any_eq_true.mp hedge
  obtain ⟨hpair, hsymbol⟩ := of_decide_eq_true hpair
  obtain ⟨o, ho, hlater⟩ := hsymbols e he ⟨0⟩ hsymbol
  rw [show e.dependency = ⟨0⟩ from congrArg Prod.snd hpair] at hlater
  exact ⟨g, _, g', hresult, hresult', hdescribes, hunresolved, e, he, hpair, o, ho, hlater⟩

end Build

end ProgramSlice
