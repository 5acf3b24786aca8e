import ProgramSlice.Proofs.Graph.Calls

/-!
# Reads that repeat

An operation may read a symbol many times, and each read is recorded.  Only the first one matters:
the later ones record a dependency that is there (`addCauses_append_of_subset`), so the reads of an
operation may be replaced by any others that name the same symbols for the first time in the same
order (`addCauses_causes_congr`).
-/

namespace ProgramSlice

/-- The symbols that an operation reads, each at its first read. -/
def Operation.firstReads (o : Operation) : List SymbolId := o.readSymbols.eraseDups

section Causes

variable {s : BuildSettings} {lastWriter : HandleMap SymbolId OperationId}
  {reads reads' : List SymbolId}

theorem dataCauses_append : dataCauses s lastWriter (reads ++ reads')
    = dataCauses s lastWriter reads ++ dataCauses s lastWriter reads' := by
  rw [dataCauses, dataCauses, dataCauses]
  split
  · exact List.filterMap_append
  · rfl

theorem dataCauses_subset (h : reads ⊆ reads') :
    dataCauses s lastWriter reads ⊆ dataCauses s lastWriter reads' := by
  rw [dataCauses, dataCauses]
  split
  · exact List.filterMap_subset _ h
  · exact List.Subset.refl _

end Causes

namespace DependencyGraph

variable {g : DependencyGraph} {o : OperationId} {earlier later : List (OperationId × Reason)}
  {s : BuildSettings} {t : BuildTrace} {previous : Option OperationId}
  {operation operation' : Operation}

theorem addCauses_append :
    g.addCauses o (earlier ++ later) = (g.addCauses o earlier).addCauses o later :=
  List.foldl_append

/-- Recording causes is calling for each of them. -/
theorem addCauses_eq_after (causes : List (OperationId × Reason)) :
    g.addCauses o causes = g.after (causes.map fun c => .addDependency o c.1 c.2) := by
  rw [after, List.foldl_map]
  rfl

/-- **Causes that are recorded** may be recorded again. -/
theorem addCauses_append_of_subset (hg : g.WellFormed) (h : later ⊆ earlier) :
    g.addCauses o (earlier ++ later) = g.addCauses o earlier := by
  rw [addCauses_append, addCauses_eq_after later]
  refine after_eq_self (hg.addCauses o earlier) fun c hc => ?_
  obtain ⟨cause, hcause, rfl⟩ := List.mem_map.mp hc
  rw [addCauses_eq_after]
  exact hasRecorded_after (List.mem_map_of_mem (h hcause))

/-- The data rule may leave out the reads that repeat an earlier one. -/
theorem addCauses_dataCauses_eraseDups (hg : g.WellFormed)
    (lastWriter : HandleMap SymbolId OperationId) (reads : List SymbolId) :
    g.addCauses o (dataCauses s lastWriter reads.eraseDups)
      = g.addCauses o (dataCauses s lastWriter reads) := by
  induction reads using List.reverseRecOn with
  | nil => rfl
  | append_singleton reads symbol ih =>
      rw [eraseDups_concat, register, dataCauses_append]
      by_cases hread : symbol ∈ reads
      · have hsubset : [symbol] ⊆ reads := by simpa using hread
        rw [if_pos (List.mem_eraseDups.mpr hread), ih]
        exact (addCauses_append_of_subset hg (dataCauses_subset hsubset)).symm
      · rw [if_neg (mt List.mem_eraseDups.mp hread), dataCauses_append, addCauses_append, ih,
          addCauses_append]

/-- What an operation gives rise to is told by its first reads. -/
theorem addCauses_causes (hg : g.WellFormed) :
    g.addCauses o (causes s t previous operation)
      = (g.addCauses o (sequencingCauses s previous)).addCauses o
          (dataCauses s t.lastWriter operation.firstReads) := by
  have hwell := hg.addCauses o (sequencingCauses s previous)
  rw [causes, addCauses_append, Operation.firstReads, addCauses_dataCauses_eraseDups hwell]

/-- **Operations with the same first reads** give rise to the same edges in the same order. -/
theorem addCauses_causes_congr (hg : g.WellFormed)
    (h : operation.firstReads = operation'.firstReads) :
    g.addCauses o (causes s t previous operation)
      = g.addCauses o (causes s t previous operation') := by
  rw [addCauses_causes hg, addCauses_causes hg, h]

end DependencyGraph

end ProgramSlice
