import ProgramSlice.Proofs.Build.Edges
import ProgramSlice.Proofs.Build.Repeats
import ProgramSlice.Proofs.Graph.Views

/-!
# The order of the edges of a built graph

A graph lists its edges in the order in which their pairs were first recorded, and this order is
seen wherever a graph is written out.  For a built graph it is told by the body: the edges are
grouped by the operations that depend, in traversal order, and within a group

* the operation before in the block comes first, if the sequencing rule is applied, and
* the others follow in the order in which the reads of the operation first lead to them.

An operation is new when it is taken in, so its edges go behind all that are there, and no later
operation adds to them (`dependenciesOf_addCauses`).  Within its group a dependency keeps the place
of its first reason: a read that leads to the operation before, or to one that an earlier read led
to, merges into the edge that is there.  `Findings.Orders` says so of the first positions.
-/

namespace ProgramSlice

/-! ## What reads lead to -/

namespace ProcedureBody

variable {s : BuildSettings} {body : ProcedureBody} {i j n : Nat} {symbol : SymbolId}
  {o : OperationId} {operation : Operation}

/-- The symbols that the operation at a position reads, in the order in which its trees mention
them. -/
def readSequence (body : ProcedureBody) (i : Nat) : List SymbolId :=
  ((body.operationAt i).toList.flatMap fun operation =>
    operation.action.expressions.flatMap Expression.preorder).filterMap Expression.readSymbol

/-- The last of the first `n` operations to write a symbol. -/
def writerBefore? (body : ProcedureBody) (n : Nat) (symbol : SymbolId) : Option OperationId :=
  (body.layout.operations.take n).reverse.find? fun o =>
    (body.store.get? o).bind Operation.writtenSymbol = some symbol

/-- The operations that the reads at a position lead to, read by read: the last one to write the
symbol, up to the position and with it. -/
def writers (s : BuildSettings) (body : ProcedureBody) (i : Nat) : List OperationId :=
  if s.includeData then (body.readSequence i).filterMap (body.writerBefore? (i + 1)) else []

/-- What an operation depends on, in the order in which the rules give it, each once. -/
def targets (s : BuildSettings) (body : ProcedureBody) (i : Nat) (previous : Option OperationId) :
    List OperationId :=
  ((if s.includeSequencing then previous.toList else []) ++ body.writers s i).eraseDups

theorem writesAt_iff (ho : body.layout.operations[i]? = some o) :
    body.WritesAt i symbol ↔ (body.store.get? o).bind Operation.writtenSymbol = some symbol := by
  simp [WritesAt, operationAt, ho, Option.bind_eq_some_iff]

/-- The last writer stands at the last position that writes. -/
theorem writerBefore?_eq_some_iff : body.writerBefore? n symbol = some o ↔
    ∃ j, body.LastWriteBefore symbol n j ∧ body.layout.operations[j]? = some o := by
  induction n with
  | zero => simp [writerBefore?, LastWriteBefore, IsGreatest]
  | succ n ih =>
      simp only [lastWriteBefore_succ]
      cases hc : body.layout.operations[n]? with
      | none =>
          have hwrites : ¬ body.WritesAt n symbol := by simp [WritesAt, operationAt, hc]
          have hshort : body.writerBefore? (n + 1) symbol = body.writerBefore? n symbol := by
            simp [writerBefore?, List.take_add_one, hc]
          simp only [lastWrite_of_not_writesAt hwrites, hshort, ih]
      | some c =>
          by_cases hwrites : body.WritesAt n symbol
          · have hlast : body.writerBefore? (n + 1) symbol = some c := by
              simp [writerBefore?, List.take_add_one, hc, (writesAt_iff hc).mp hwrites]
            simp only [lastWrite_of_writesAt hwrites, exists_eq_left, hc, hlast]
          · have hskip : body.writerBefore? (n + 1) symbol = body.writerBefore? n symbol := by
              simp [writerBefore?, List.take_add_one, hc, mt (writesAt_iff hc).mpr hwrites]
            simp only [lastWrite_of_not_writesAt hwrites, hskip, ih]

theorem readSequence_eq (h : body.operationAt i = some operation) :
    body.readSequence i = operation.readSymbols := by
  have hwalk : Expression.descendants = Expression.preorder :=
    funext Expression.descendants_eq_preorder
  simp [readSequence, h, Operation.readSymbols, Action.readSymbols, hwalk]

end ProcedureBody

/-! ## One operation -/

namespace DependencyGraph

variable {g : DependencyGraph} {o x : OperationId} {causes : List (OperationId × Reason)}

theorem dependenciesOf_eq_pairs (g : DependencyGraph) (o : OperationId) :
    g.dependenciesOf o = ((g.edges.map Edge.pair).filter (·.1 = o)).map Prod.snd := by
  rw [List.filter_map, List.map_map]
  rfl

theorem dependentsOf_eq_pairs (g : DependencyGraph) (o : OperationId) :
    g.dependentsOf o = ((g.edges.map Edge.pair).filter (·.2 = o)).map Prod.fst := by
  rw [List.filter_map, List.map_map]
  rfl

theorem dependenciesOf_addNode : (g.addNode o).dependenciesOf x = g.dependenciesOf x := by
  rw [dependenciesOf, edges_addNode, dependenciesOf]

/-- An operation that is new has no edges. -/
theorem WellFormed.not_mem_pairs_addNode (hg : g.WellFormed) (ho : o ∉ g.nodes) (b : OperationId) :
    (o, b) ∉ (g.addNode o).edges.map Edge.pair := by
  rw [edges_addNode]
  exact fun hmem => ho (hg.ends_mem _ hmem).1

/-- The pairs of a new operation go behind all others, in the order of their first causes. -/
theorem pairs_addCauses (hnew : ∀ b, (o, b) ∉ g.edges.map Edge.pair) :
    (g.addCauses o causes).edges.map Edge.pair
      = g.edges.map Edge.pair ++ ((causes.map Prod.fst).eraseDups).map fun b => (o, b) := by
  have hcalls : (causes.map fun c => Call.addDependency o c.1 c.2).flatMap Call.pairs
      = (causes.map Prod.fst).map fun b => (o, b) := by
    rw [List.flatMap_map, List.map_map, List.map_eq_flatMap]
    rfl
  have hall : ∀ p ∈ (causes.map Prod.fst).map fun b => (o, b), p ∉ g.edges.map Edge.pair := by
    intro p hp
    obtain ⟨b, -, rfl⟩ := List.mem_map.mp hp
    exact hnew b
  rw [addCauses_eq_after, pairs_after, hcalls, List.filter_eq_self.mpr (by simpa using hall),
    eraseDups_map (f := fun b => (o, b)) (Prod.mk_right_injective o)]

/-- The dependencies of a new operation are its causes, each at its first place, and nothing is
added to the dependencies of the others. -/
theorem dependenciesOf_addCauses (hnew : ∀ b, (o, b) ∉ g.edges.map Edge.pair) :
    (g.addCauses o causes).dependenciesOf x
      = if x = o then (causes.map Prod.fst).eraseDups else g.dependenciesOf x := by
  rw [dependenciesOf_eq_pairs, pairs_addCauses hnew, List.filter_append, List.map_append,
    ← dependenciesOf_eq_pairs]
  by_cases hx : x = o
  · subst hx
    have hnone : g.dependenciesOf x = [] := by
      simp [List.eq_nil_iff_forall_not_mem, mem_dependenciesOf, hnew]
    simp [hnone, List.filter_map, Function.comp_def]
  · simp [hx, Ne.symm hx, List.filter_map, Function.comp_def]

end DependencyGraph

namespace Findings

variable {s : BuildSettings} {body : ProcedureBody} {n : Nat} {f : Findings} {v : Visit}
  {operation : Operation} {x : OperationId}

section Step

variable (htracks : f.Tracks s body n) (hv : body.layout.visits[n]? = some v)
  (hstore : body.store.get? v.operation = some operation)

include htracks hv hstore

/-- The causes of the next operation lead to the operation before and then to what its reads lead
to. -/
theorem map_fst_causes :
    (causes s (f.trace.note v.operation v.previous operation) v.previous operation).map Prod.fst
      = (if s.includeSequencing then v.previous.toList else []) ++ body.writers s n := by
  have hwriter : (f.trace.note v.operation v.previous operation).lastWriter.get?
      = body.writerBefore? (n + 1) := by
    funext symbol
    ext o
    rw [htracks.get?_lastWriter_note hv hstore, ProcedureBody.writerBefore?_eq_some_iff]
    simp only [ProcedureBody.lastWriteBefore_succ]
  have hreads := ProcedureBody.readSequence_eq (Tracks.operationAt_eq hv hstore)
  rw [causes, List.map_append, sequencingCauses, dataCauses, ProcedureBody.writers, hreads,
    ← hwriter]
  congr 1
  · split <;> simp [Function.comp_def]
  · split <;> simp [List.map_filterMap, Function.comp_def]

variable (hnew : v.operation ∉ f.graph.nodes)

include hnew

theorem dependenciesOf_absorb :
    (f.absorb s v.operation v.previous operation).graph.dependenciesOf x
      = if x = v.operation then body.targets s n v.previous else f.graph.dependenciesOf x := by
  have hpairs := htracks.wellFormed.not_mem_pairs_addNode hnew
  rw [absorb, DependencyGraph.dependenciesOf_addCauses hpairs, map_fst_causes htracks hv hstore,
    DependencyGraph.dependenciesOf_addNode]
  rfl

theorem pairs_absorb :
    (f.absorb s v.operation v.previous operation).graph.edges.map Edge.pair
      = f.graph.edges.map Edge.pair
        ++ (body.targets s n v.previous).map fun b => (v.operation, b) := by
  have hpairs := htracks.wellFormed.not_mem_pairs_addNode hnew
  rw [absorb, DependencyGraph.pairs_addCauses hpairs, map_fst_causes htracks hv hstore,
    DependencyGraph.edges_addNode]
  rfl

end Step

/-! ## The pass -/

/-- How the edges stand after the first `n` positions. -/
structure Orders (s : BuildSettings) (body : ProcedureBody) (n : Nat) (f : Findings) : Prop where
  /-- The edges of an operation stand together, and the operations are in traversal order. -/
  grouped : f.graph.edges.map Edge.pair = (body.layout.operations.take n).flatMap fun o =>
    (f.graph.dependenciesOf o).map fun b => (o, b)
  /-- The edges of one operation are in the order in which the rules give them. -/
  targets : ∀ i v, i < n → body.layout.visits[i]? = some v →
    f.graph.dependenciesOf v.operation = body.targets s i v.previous

namespace Orders

theorem begun (s : BuildSettings) (body : ProcedureBody) : Orders s body 0 (begun body) where
  grouped := by simp [Findings.begun]
  targets := by
    intro i v hi
    exact absurd hi (Nat.not_lt_zero i)

/-- **Taking in the next operation** adds a group behind the others. -/
theorem absorb (h : f.Orders s body n) (htracks : f.Tracks s body n)
    (hv : body.layout.visits[n]? = some v)
    (hstore : body.store.get? v.operation = some operation) (hnew : v.operation ∉ f.graph.nodes) :
    (f.absorb s v.operation v.previous operation).Orders s body (n + 1) where
  grouped := by
    have hothers : ∀ o ∈ body.layout.operations.take n, o ≠ v.operation := by
      rintro o ho rfl
      rw [← htracks.nodes] at ho
      exact hnew ho
    rw [pairs_absorb htracks hv hstore hnew, List.take_add_one, Tracks.getElem?_operations hv,
      Option.toList_some, List.flatMap_append, List.flatMap_singleton, h.grouped]
    simp only [dependenciesOf_absorb htracks hv hstore hnew, if_true]
    congr 1
    refine List.flatMap_congr fun o ho => ?_
    rw [if_neg (hothers o ho)]
  targets := by
    intro i w hi hw
    rw [dependenciesOf_absorb htracks hv hstore hnew]
    rcases Nat.lt_or_eq_of_le (Nat.le_of_lt_succ hi) with hlt | rfl
    · have hearlier : w.operation ∈ f.graph.nodes := by
        rw [htracks.nodes, BlockLayout.mem_take_operations]
        exact ⟨i, hlt, Tracks.getElem?_operations hw⟩
      rw [if_neg (ne_of_mem_of_not_mem hearlier hnew), h.targets i w hlt hw]
    · obtain rfl := Option.some.inj (hv.symm.trans hw)
      rw [if_pos rfl]

/-- **A run** has the edges of the visited positions in order. -/
theorem of_upTo (hn : n ≤ body.layout.operations.length) (hclean : ∀ k < n, ¬ body.Faulty s k)
    (hf : upTo s body n = .ok f) : f.Orders s body n :=
  upTo_induction (P := fun n f => f.Orders s body n) (m := 0) rfl (Nat.zero_le n) hn hclean
    (.begun s body) (fun htracks hv hstore hnew h => h.absorb htracks hv hstore hnew) hf

end Orders

end Findings

/-! ## The build -/

namespace BlockLayout

/-- The operation `a` stands before the operation `b` in the traversal. -/
def Precedes (l : BlockLayout) (a b : OperationId) : Prop :=
  ∃ i j : Nat, l.operations[i]? = some a ∧ l.operations[j]? = some b ∧ i < j

theorem pairwise_precedes (l : BlockLayout) : l.operations.Pairwise l.Precedes := by
  rw [List.pairwise_iff_getElem]
  intro i j hi hj hij
  exact ⟨i, j, List.getElem?_eq_getElem hi, List.getElem?_eq_getElem hj, hij⟩

end BlockLayout

section Build

variable {s : BuildSettings} {body : ProcedureBody} {g : DependencyGraph} {i k m : Nat}
  {o p : OperationId}

theorem orders_of_build (h : build s body = .ok g) :
    ∃ f : Findings, f.graph = g ∧ f.Orders s body body.layout.operations.length := by
  have hclean := clean_of_build h
  obtain ⟨f, rfl, hf⟩ := exists_upTo_of_build h
  exact ⟨f, rfl, .of_upTo le_rfl (fun k _ => hclean k) hf⟩

theorem pairs_of_build (h : build s body = .ok g) :
    g.edges.map Edge.pair
      = body.layout.operations.flatMap fun o => (g.dependenciesOf o).map fun b => (o, b) := by
  obtain ⟨f, rfl, horders⟩ := orders_of_build h
  rw [horders.grouped, List.take_length]

/-- What an operation depends on is what the rules give at its position, in their order. -/
theorem exists_dependenciesOf_eq (h : build s body = .ok g)
    (ho : body.layout.operations[i]? = some o) :
    ∃ v, body.layout.visits[i]? = some v ∧ g.dependenciesOf o = body.targets s i v.previous := by
  obtain ⟨f, rfl, horders⟩ := orders_of_build h
  have hi := (List.getElem?_eq_some_iff.mp ho).1
  obtain ⟨v, hv⟩ := Findings.exists_visit hi
  obtain rfl := Option.some.inj (ho.symm.trans (BlockLayout.operation_of_visits hv))
  exact ⟨v, hv, horders.targets i v hi hv⟩

/-- The dependencies of an operation behind another of its block. -/
theorem dependenciesOf_of_standsAt_succ (h : build s body = .ok g)
    (ho : body.layout.operations[i]? = some o) (hp : body.layout.StandsAt k m p)
    (hnext : body.layout.StandsAt k (m + 1) o) (hs : s.includeSequencing = true) :
    g.dependenciesOf o = p :: ((body.writers s i).filter (· ≠ p)).eraseDups := by
  obtain ⟨v, hv, htargets⟩ := exists_dependenciesOf_eq h ho
  obtain ⟨j, hblock, hj, hat⟩ := BlockLayout.exists_sameBlock_succ_iff.mpr ⟨k, m, hnext, hp⟩
  obtain rfl := position_unique h ho hj
  have hprevious : v.previous = some p :=
    (BlockLayout.previous_of_visits hv).mpr ⟨j, rfl, hblock, hat⟩
  rw [htargets, ProcedureBody.targets, if_pos hs, hprevious, Option.toList_some,
    List.singleton_append, List.eraseDups_cons]
  simp [beq_eq_decide]

/-- The dependencies of an operation that none goes before. -/
theorem dependenciesOf_of_first (h : build s body = .ok g)
    (ho : body.layout.operations[i]? = some o)
    (hfirst : s.includeSequencing = false ∨ ∃ k, body.layout.StandsAt k 0 o) :
    g.dependenciesOf o = (body.writers s i).eraseDups := by
  obtain ⟨v, hv, htargets⟩ := exists_dependenciesOf_eq h ho
  have hnone : (if s.includeSequencing then v.previous.toList else []) = [] := by
    rcases hfirst with hs | ⟨k, hk⟩
    · simp [hs]
    · cases hprevious : v.previous with
      | none => simp
      | some p =>
          obtain ⟨j, rfl, hblock, hj⟩ := (BlockLayout.previous_of_visits hv).mp hprevious
          obtain ⟨k', m, ho', -⟩ := BlockLayout.exists_sameBlock_succ_iff.mp ⟨j, hblock, ho, hj⟩
          obtain ⟨-, hm⟩ := hk.unique (nodup_of_build h) ho'
          exact absurd hm (Nat.succ_ne_zero m).symm
  rw [htargets, ProcedureBody.targets, hnone, List.nil_append]

/-- What depends on an operation is in traversal order: each group has at most one edge to it. -/
theorem pairwise_dependentsOf (h : build s body = .ok g) (x : OperationId) :
    (g.dependentsOf x).Pairwise body.layout.Precedes := by
  rw [DependencyGraph.dependentsOf_eq_pairs, pairs_of_build h, List.filter_flatMap,
    List.map_flatMap, List.pairwise_flatMap]
  simp only [List.filter_map, List.map_map]
  constructor
  · intro o _
    have hnodup : (g.dependenciesOf o).Nodup := (wellFormed_of_build h).nodup_neighbours .backward o
    rw [List.pairwise_map]
    refine (hnodup.filter _).imp_of_mem ?_
    intro b c hb hc hne
    -- both lead to `x`, and the dependencies of one operation are not repeated
    have hbx : b = x := by simpa using (List.mem_filter.mp hb).2
    have hcx : c = x := by simpa using (List.mem_filter.mp hc).2
    exact absurd (hbx.trans hcx.symm) hne
  · refine body.layout.pairwise_precedes.imp ?_
    intro a b hab a' ha' b' hb'
    obtain ⟨-, -, rfl⟩ := List.mem_map.mp ha'
    obtain ⟨-, -, rfl⟩ := List.mem_map.mp hb'
    exact hab

end Build

/-- **The order of the edges** of a built graph.  They are grouped by the operations that depend, in
traversal order, and the dependencies of an operation are listed as in its group.  An operation that
another goes before in its block has the edge to that one first, if the sequencing rule is applied;
the others lead to the last writers of the symbols that it reads, in the order in which its reads,
in pre-order, first lead to them.  Where the sequencing rule has no say there are only these.  What
depends on an operation is listed in traversal order. -/
theorem edges_in_order {s : BuildSettings} {body : ProcedureBody} {g : DependencyGraph}
    (h : build s body = .ok g) :
    g.edges.map Edge.pair
      = (body.layout.operations.flatMap fun o => (g.dependenciesOf o).map fun b => (o, b)) ∧
    (∀ (i : Nat) (o : OperationId), body.layout.operations[i]? = some o →
      (∀ k m p, body.layout.StandsAt k m p → body.layout.StandsAt k (m + 1) o →
        s.includeSequencing = true → g.Cites o p .sequencing ∧
          g.dependenciesOf o = p :: ((body.writers s i).filter (· ≠ p)).eraseDups) ∧
      ((s.includeSequencing = false ∨ ∃ k, body.layout.StandsAt k 0 o) →
        g.dependenciesOf o = (body.writers s i).eraseDups)) ∧
    ∀ o, (g.dependentsOf o).Pairwise body.layout.Precedes := by
  refine ⟨pairs_of_build h, fun i o ho => ⟨fun k m p hp hnext hs => ⟨?_, ?_⟩, fun hfirst => ?_⟩,
    pairwise_dependentsOf h⟩
  · obtain ⟨j, hblock, hj, hat⟩ := BlockLayout.exists_sameBlock_succ_iff.mpr ⟨k, m, hnext, hp⟩
    exact (cites_iff_gives h hj hat).mpr (.sequencing hs hblock)
  · exact dependenciesOf_of_standsAt_succ h ho hp hnext hs
  · exact dependenciesOf_of_first h ho hfirst

/-- The last operation reads both variables, of which it last wrote the first one itself. -/
theorem edges_in_order_sharedNumbers :
    ∃ g, build {} sharedNumbers = .ok g ∧ g.dependenciesOf ⟨3⟩ = [⟨2⟩, ⟨3⟩, ⟨1⟩] ∧
      g.dependentsOf ⟨1⟩ = [⟨2⟩, ⟨3⟩] ∧
      (g.dependentsOf ⟨1⟩).Pairwise sharedNumbers.layout.Precedes := by
  have hdependents : ((build {} sharedNumbers).toOption.any fun g =>
      g.dependentsOf ⟨1⟩ = [⟨2⟩, ⟨3⟩]) = true := by decide +kernel
  obtain ⟨g, hg, hone⟩ := exists_ok_of_any hdependents
  obtain ⟨-, hgroup, hordered⟩ := edges_in_order hg
  obtain ⟨hnext, -⟩ := hgroup 3 ⟨3⟩ rfl
  obtain ⟨-, hlast⟩ := hnext 2 0 ⟨2⟩ ⟨_, rfl, rfl⟩ ⟨_, rfl, rfl⟩ rfl
  exact ⟨g, hg, hlast.trans (by decide), of_decide_eq_true hone, hordered ⟨1⟩⟩

end ProgramSlice
