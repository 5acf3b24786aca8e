import ProgramSlice.Proofs.Build.Outcome

/-!
# The log of a build

A build logs what it does as it goes along: that it begins, each block that it enters, each
operation that it looks at, each assignment whose target is unresolved, and that it is done.
Nothing is logged twice or out of place, so the log can be told from the body and from where the
build stopped.

* A stop that succeeds logs what the body says of it (`Findings.log_stop`).  So a run without a
  failure logs the itinerary stop by stop (`Findings.log_follow`).
* A build that fails stops at its first faulty position.  The stops before it succeed, and at the
  position itself the operation is logged if the store holds it (`Findings.stopsWith_of_error`).
  Nothing follows, and in particular not that a graph is complete.
-/

namespace ProgramSlice

/-! ## What a body has logged -/

/-- What is logged of an operation that is looked at. -/
def Operation.event (o : Operation) : Event := .operation o.label o.action.name

/-- What is logged of an operation that is taken in. -/
def Operation.events (o : Operation) : List Event :=
  o.event :: if o.hasUnresolvedTarget then [.unresolvedTarget o.label] else []

/-- What is logged when a block is entered. -/
def BasicBlock.event (b : BasicBlock) : Event := .block b.ordinal b.operations.length

namespace ProcedureBody

/-- What is logged of operations that are taken in one behind the other. -/
def eventsOf (body : ProcedureBody) (operations : List OperationId) : List Event :=
  (operations.filterMap body.store.get?).flatMap Operation.events

/-- What is logged of blocks all of whose operations are taken in. -/
def eventsOfBlocks (body : ProcedureBody) (blocks : List BasicBlock) : List Event :=
  blocks.flatMap fun b => b.event :: body.eventsOf b.operations

/-- What is logged when a build begins. -/
def firstEvent (body : ProcedureBody) : Event := .started body.name body.layout.blocks.length

/-- What is logged before the place `m` of a block at entry `k`. -/
def eventsBefore (body : ProcedureBody) (k : Nat) (block : BasicBlock) (m : Nat) : List Event :=
  body.firstEvent :: body.eventsOfBlocks (body.layout.blocks.take k)
    ++ block.event :: body.eventsOf (block.operations.take m)

/-- **The end of the log** of a build that fails at an operation.  An operation that does not exist
cannot be logged; any other is logged before it is refused. -/
inductive StopsWith (body : ProcedureBody) (o : OperationId) : BuildError → List Event → Prop
  /-- The store does not hold the operation. -/
  | unknown {function : String} {ordinal : UInt64} (hstore : body.store.get? o = none) :
      StopsWith body o (.unknownOperation function ordinal o) []
  /-- The operation was listed before. -/
  | duplicate {function : String} {ordinal : UInt64} {operation : Operation}
      (hstore : body.store.get? o = some operation) :
      StopsWith body o (.duplicateOperation function ordinal o) [operation.event]
  /-- There is no room for the operation. -/
  | limit {function : String} {limit : UInt64} {operation : Operation}
      (hstore : body.store.get? o = some operation) :
      StopsWith body o (.nodeLimitExceeded function limit) [operation.event]

/-- That a graph is complete is not logged of an operation that is refused. -/
theorem StopsWith.built_notMem {body : ProcedureBody} {o : OperationId} {e : BuildError}
    {last : List Event} (h : body.StopsWith o e last) (function : String)
    (nodes edges unresolved : Nat) : .built function nodes edges unresolved ∉ last := by
  cases h <;> simp [Operation.event]

/-- What a stop that succeeds logs. -/
def eventsAt (body : ProcedureBody) : Stop → List Event
  | .enter block => [block.event]
  | .visit _ _ o => body.eventsOf [o]

variable {body : ProcedureBody} {k m : Nat} {block : BasicBlock} {o : OperationId}

theorem eventsOf_cons (body : ProcedureBody) (o : OperationId) (rest : List OperationId) :
    body.eventsOf (o :: rest) = body.eventsOf [o] ++ body.eventsOf rest := by
  rw [eventsOf, eventsOf, eventsOf, ← List.flatMap_append, ← List.filterMap_append,
    List.singleton_append]

theorem eventsOf_singleton {operation : Operation} (hstore : body.store.get? o = some operation) :
    body.eventsOf [o] = operation.events := by
  simp [eventsOf, hstore]

/-- The stops of a block log its operations. -/
theorem flatMap_eventsAt_visits (ordinal : UInt64) (previous : Option OperationId)
    (operations : List OperationId) :
    (BasicBlock.visits ordinal previous operations).flatMap body.eventsAt
      = body.eventsOf operations := by
  induction operations generalizing previous with
  | nil => rfl
  | cons o rest ih =>
      rw [BasicBlock.visits, List.flatMap_cons, ih, eventsOf_cons]
      rfl

theorem flatMap_eventsAt_itinerary (blocks : List BasicBlock) :
    (blocks.flatMap BasicBlock.itinerary).flatMap body.eventsAt = body.eventsOfBlocks blocks := by
  rw [List.flatMap_assoc, eventsOfBlocks]
  refine List.flatMap_congr fun b _ => ?_
  rw [BasicBlock.itinerary, List.flatMap_cons, flatMap_eventsAt_visits]
  rfl

/-- The last event before the first operation of a block is that of the block. -/
theorem getLast?_eventsBefore_zero :
    (body.eventsBefore k block 0).getLast? = some block.event := by
  simp [eventsBefore, eventsOf, List.getLast?_cons]

/-- The last event before any other operation is the last one of the operation before. -/
theorem getLast?_eventsBefore_succ {operation : Operation} (ho : block.operations[m]? = some o)
    (hstore : body.store.get? o = some operation) :
    (body.eventsBefore k block (m + 1)).getLast? = operation.events.getLast? := by
  have hlast : body.eventsOf (block.operations.take (m + 1))
      = body.eventsOf (block.operations.take m) ++ operation.events := by
    simp [eventsOf, List.take_add_one, ho, hstore]
  rw [eventsBefore, hlast, ← List.cons_append, ← List.append_assoc,
    List.getLast?_append_of_ne_nil _ (by simp [Operation.events])]

theorem built_notMem_eventsOf (operations : List OperationId) (function : String)
    (nodes edges unresolved : Nat) :
    .built function nodes edges unresolved ∉ body.eventsOf operations := by
  intro hmem
  obtain ⟨operation, -, hmem⟩ := List.mem_flatMap.mp hmem
  rcases List.mem_cons.mp hmem with heq | hmem
  · cases heq
  · split at hmem <;> simp at hmem

/-- That a graph is complete is not logged before an operation. -/
theorem built_notMem_eventsBefore (function : String) (nodes edges unresolved : Nat) :
    .built function nodes edges unresolved ∉ body.eventsBefore k block m := by
  simp only [eventsBefore, eventsOfBlocks, firstEvent, BasicBlock.event, List.cons_append,
    List.mem_cons, List.mem_append, List.mem_flatMap, reduceCtorEq, false_or, not_or, not_exists,
    not_and]
  exact ⟨fun b _ => built_notMem_eventsOf _ _ _ _ _, built_notMem_eventsOf _ _ _ _ _⟩

end ProcedureBody

/-! ## Reports one behind the other -/

namespace Report

variable {α β : Type} {r : Report α} {next : α → Report β} {a : α} {e : BuildError}

theorem log_andThen_of_ok (h : r.result = .ok a) :
    (r.andThen next).log = r.log ++ (next a).log := by
  simp only [andThen, h]

theorem log_andThen_of_error (h : r.result = .error e) : (r.andThen next).log = r.log := by
  simp only [andThen, h]

end Report

/-! ## The log of a run -/

namespace Findings

variable {s : BuildSettings} {body : ProcedureBody} {f f' : Findings} {stop : Stop}
  {before after : List Stop} {ordinal : UInt64} {previous : Option OperationId} {o : OperationId}
  {e : BuildError}

/-- **A stop that succeeds** logs what the body says of it. -/
theorem log_stop (h : (f.stop s body stop).result = .ok f') :
    (f.stop s body stop).log = body.eventsAt stop := by
  cases stop with
  | enter block => rfl
  | visit ordinal previous o =>
      rw [Findings.stop, visit] at h ⊢
      cases hstore : body.store.get? o with
      | none =>
          rw [hstore] at h
          cases h
      | some operation =>
          simp only [hstore] at h ⊢
          split at h
          · cases h
          · split at h
            · cases h
            · next hnew hroom =>
              rw [if_neg hnew, if_neg hroom, ProcedureBody.eventsAt,
                ProcedureBody.eventsOf_singleton hstore, Operation.events]
              dsimp only
              split <;> rfl

/-- **A visit that fails** logs the operation if it exists, and nothing else. -/
theorem stopsWith_of_error (h : (f.visit s body ordinal previous o).result = .error e) :
    body.StopsWith o e (f.visit s body ordinal previous o).log := by
  rw [visit] at h ⊢
  cases hstore : body.store.get? o with
  | none =>
      rw [hstore] at h
      cases h
      exact .unknown hstore
  | some operation =>
      simp only [hstore] at h ⊢
      by_cases hseen : f.graph.containsNode o = true
      · rw [if_pos hseen] at h ⊢
        cases h
        exact .duplicate hstore
      · rw [if_neg hseen] at h ⊢
        by_cases hfull : s.maxNodes.toNat < (f.graph.addNode o).nodeCount
        · rw [if_pos hfull] at h ⊢
          cases h
          exact .limit hstore
        · rw [if_neg hfull] at h
          cases h

/-- **A run that succeeds** logs stop by stop. -/
theorem log_follow {stops : List Stop} (h : (follow s body stops f).result = .ok f') :
    (follow s body stops f).log = stops.flatMap body.eventsAt := by
  induction stops generalizing f with
  | nil => rfl
  | cons stop rest ih =>
      rw [follow, result_andThen] at h
      rw [follow]
      cases hstop : (f.stop s body stop).result with
      | error e =>
          rw [hstop] at h
          cases h
      | ok f₁ =>
          rw [hstop] at h
          rw [Report.log_andThen_of_ok hstop, log_stop hstop, ih h, List.flatMap_cons]

/-- A run goes on as far as its next failure: it logs the stops before it, and what the stop that
fails logs. -/
theorem log_follow_of_error (hbefore : (follow s body before f).result = .ok f')
    (hstop : (f'.stop s body stop).result = .error e) :
    (follow s body (before ++ stop :: after) f).log
      = before.flatMap body.eventsAt ++ (f'.stop s body stop).log := by
  induction before generalizing f with
  | nil =>
      cases hbefore
      rw [List.nil_append, follow, Report.log_andThen_of_error hstop]
      rfl
  | cons first rest ih =>
      rw [follow, result_andThen] at hbefore
      rw [List.cons_append, follow]
      cases hfirst : (f.stop s body first).result with
      | error e' =>
          rw [hfirst] at hbefore
          cases hbefore
      | ok f₁ =>
          rw [hfirst] at hbefore
          rw [Report.log_andThen_of_ok hfirst, log_stop hfirst, ih hbefore, List.flatMap_cons,
            List.append_assoc]

end Findings

/-! ## The itinerary up to a position -/

/-- The stops of a block up to one of its operations. -/
theorem BasicBlock.exists_visits_eq {m : Nat} {o : OperationId} (ordinal : UInt64)
    (previous : Option OperationId) {operations : List OperationId}
    (ho : operations[m]? = some o) :
    ∃ p after, visits ordinal previous operations
      = visits ordinal previous (operations.take m) ++ .visit ordinal p o :: after := by
  induction operations generalizing previous m with
  | nil => simp at ho
  | cons first rest ih =>
      cases m with
      | zero =>
          obtain rfl := Option.some.inj ho
          exact ⟨previous, _, rfl⟩
      | succ m =>
          obtain ⟨p, after, hsplit⟩ := ih (some first) ho
          exact ⟨p, after, by rw [visits, hsplit, List.take_succ_cons, visits, List.cons_append]⟩

namespace BlockLayout

variable {l : BlockLayout} {k i : Nat} {block : BasicBlock} {o : OperationId}

/-- The stops before the place `m` of a block at entry `k`. -/
def stopsBefore (l : BlockLayout) (k : Nat) (block : BasicBlock) (m : Nat) : List Stop :=
  (l.blocks.take k).flatMap BasicBlock.itinerary
    ++ .enter block :: BasicBlock.visits block.ordinal none (block.operations.take m)

/-- There are as many visits before a position as there are positions. -/
theorem HoldsAt.length_visits_stopsBefore (h : l.HoldsAt k block i) :
    ((l.stopsBefore k block (i - l.start k)).filterMap Stop.visit?).length = i := by
  have hblocks : (((l.blocks.take k).flatMap BasicBlock.itinerary).filterMap Stop.visit?).length
      = l.start k := by
    rw [start, ← length_operations, ← length_visits]
    rfl
  obtain ⟨-, hlow, hhigh⟩ := h
  rw [stopsBefore, List.filterMap_append, List.length_append, hblocks, List.filterMap_cons,
    Stop.visit?, length_visits_block, List.length_take]
  omega

/-- **The itinerary up to a position.**  Before the stop at its operation there are the stops of the
blocks before and those at the operations before in its own block, and these are the visits of the
positions before. -/
theorem HoldsAt.exists_itinerary_eq (h : l.HoldsAt k block i) (ho : l.operations[i]? = some o) :
    ∃ p after, l.itinerary
        = l.stopsBefore k block (i - l.start k) ++ .visit block.ordinal p o :: after ∧
      (l.stopsBefore k block (i - l.start k)).filterMap Stop.visit? = l.visits.take i ∧
      l.visits[i]? = some ⟨block.ordinal, p, o⟩ := by
  have hlength := h.length_visits_stopsBefore
  have hat : block.operations[i - l.start k]? = some o := by
    rw [← h.getElem?_operations, ho]
  obtain ⟨p, afterBlock, hblock⟩ := BasicBlock.exists_visits_eq block.ordinal none hat
  obtain ⟨hlt, hget⟩ := List.getElem?_eq_some_iff.mp h.1
  have hitinerary : l.itinerary = l.stopsBefore k block (i - l.start k)
      ++ .visit block.ordinal p o
        :: (afterBlock ++ (l.blocks.drop (k + 1)).flatMap BasicBlock.itinerary) := by
    conv_lhs => rw [itinerary, ← List.take_append_drop k l.blocks, List.drop_eq_getElem_cons hlt,
      hget, List.flatMap_append, List.flatMap_cons, BasicBlock.itinerary, hblock]
    simp [stopsBefore]
  have hvisits : l.visits = (l.stopsBefore k block (i - l.start k)).filterMap Stop.visit?
      ++ ⟨block.ordinal, p, o⟩ :: (afterBlock
        ++ (l.blocks.drop (k + 1)).flatMap BasicBlock.itinerary).filterMap Stop.visit? := by
    rw [visits, hitinerary, List.filterMap_append, List.filterMap_cons, Stop.visit?]
  refine ⟨p, _, hitinerary, ?_, ?_⟩
  · rw [hvisits, List.take_left' hlength]
  · rw [hvisits, List.getElem?_append_right (by omega), hlength, Nat.sub_self]
    rfl

end BlockLayout

/-! ## The log of a build -/

section Build

variable {s : BuildSettings} {body : ProcedureBody} {g : DependencyGraph} {t : BuildTrace}
  {i k : Nat} {block : BasicBlock} {o : OperationId} {e : BuildError}

/-- The log of a build begins with one event, and behind the log of the run there is one more if the
run succeeds. -/
theorem log_buildWithTrace (s : BuildSettings) (body : ProcedureBody) :
    (buildWithTrace s body).log
      = body.firstEvent :: (Findings.follow s body body.layout.itinerary (.begun body)).log
        ++ match (Findings.follow s body body.layout.itinerary (.begun body)).result with
          | .ok f => [.built body.name f.graph.nodeCount f.graph.edgeCount
              f.trace.unresolvedTargets.length]
          | .error _ => [] := by
  show ((Report.andThen ⟨[body.firstEvent], .ok (Findings.begun body)⟩
    (Findings.follow s body body.layout.itinerary)).andThen _).log = _
  simp only [Report.andThen]
  cases (Findings.follow s body body.layout.itinerary (.begun body)).result with
  | error e => simp
  | ok f => rfl

/-- A build that succeeds logs all of the body, and then what it has built. -/
theorem log_of_ok (h : (buildWithTrace s body).result = .ok (g, t)) :
    (buildWithTrace s body).log = body.firstEvent :: body.eventsOfBlocks body.layout.blocks
      ++ [.built body.name g.nodeCount g.edgeCount t.unresolvedTargets.length] := by
  rw [result_buildWithTrace, ← Findings.result_follow_itinerary] at h
  rw [log_buildWithTrace]
  cases hrun : (Findings.follow s body body.layout.itinerary (.begun body)).result with
  | error e =>
      rw [hrun] at h
      cases h
  | ok f =>
      rw [hrun] at h
      cases h
      rw [Findings.log_follow hrun, BlockLayout.itinerary, ProcedureBody.flatMap_eventsAt_itinerary]

/-- A build that fails logs the body up to the first faulty position, and there it ends. -/
theorem log_of_firstFault (hfirst : body.FirstFault s i e) (hblock : body.layout.HoldsAt k block i)
    (ho : body.layout.operations[i]? = some o) :
    ∃ last, body.StopsWith o e last ∧
      (buildWithTrace s body).log
        = body.eventsBefore k block (i - body.layout.start k) ++ last := by
  have hi := (List.getElem?_eq_some_iff.mp ho).1
  obtain ⟨p, after, hitinerary, hvisits, hv⟩ := hblock.exists_itinerary_eq ho
  -- the run succeeds as far as the position, and fails there
  obtain ⟨f, hf, htracks⟩ := Findings.upTo_of_clean hi.le hfirst.2
  have hbefore : (Findings.follow s body (body.layout.stopsBefore k block
      (i - body.layout.start k)) (.begun body)).result = .ok f := by
    rw [Findings.result_follow, hvisits]
    exact hf
  have hfault : (f.stop s body (.visit block.ordinal p o)).result = .error e :=
    htracks.receive_of_fault hv hfirst.1
  have hrun : (Findings.follow s body body.layout.itinerary (.begun body)).result = .error e := by
    rw [Findings.result_follow_itinerary]
    exact Findings.upTo_of_firstFault hfirst hi le_rfl
  refine ⟨_, Findings.stopsWith_of_error hfault, ?_⟩
  rw [log_buildWithTrace, hrun, hitinerary,
    Findings.log_follow_of_error hbefore hfault,
    BlockLayout.stopsBefore, List.flatMap_append, ProcedureBody.flatMap_eventsAt_itinerary,
    List.flatMap_cons, ProcedureBody.flatMap_eventsAt_visits, ProcedureBody.eventsBefore]
  simp [ProcedureBody.eventsAt, Findings.stop]

/-- The log up to an operation ends with the event of its block, or with what is logged of the
operation before, if none of the operations before is faulty. -/
theorem getLast?_eventsBefore {m : Nat}
    (hblock : body.layout.HoldsAt k block (body.layout.start k + m))
    (hclean : ∀ j < body.layout.start k + m, ¬ body.Faulty s j) :
    (m = 0 ∧ (body.eventsBefore k block m).getLast? = some block.event) ∨
      ∃ n before operation, m = n + 1 ∧ block.operations[n]? = some before ∧
        body.store.get? before = some operation ∧
        (body.eventsBefore k block m).getLast? = operation.events.getLast? := by
  cases m with
  | zero => exact Or.inl ⟨rfl, ProcedureBody.getLast?_eventsBefore_zero⟩
  | succ n =>
      obtain ⟨hk, -, hhigh⟩ := hblock
      have hn : n < block.operations.length := by omega
      have hbefore : body.layout.operations[body.layout.start k + n]?
          = some block.operations[n] := by
        have hholds : body.layout.HoldsAt k block (body.layout.start k + n) :=
          ⟨hk, by omega, by omega⟩
        rw [hholds.getElem?_operations, Nat.add_sub_cancel_left, List.getElem?_eq_getElem hn]
      obtain ⟨operation, hstore⟩ := Option.ne_none_iff_exists'.mp
        (mt OperationStore.get?_eq_none_iff.mp fun hunknown =>
          hclean _ (Nat.lt_succ_self _) ⟨_, hbefore, Or.inl hunknown⟩)
      have hat : block.operations[n]? = some block.operations[n] := List.getElem?_eq_getElem hn
      exact Or.inr ⟨n, _, operation, rfl, hat, hstore,
        ProcedureBody.getLast?_eventsBefore_succ hat hstore⟩

/-- **The log of a build mirrors its run.**  It begins with the name of the body and the number of
its blocks.  Then each block that is reached is logged with its number and the number of its
operations, and behind it the operations that are reached, each with its label and kind, and if it
is taken in and its target is unresolved, once more.

If the build succeeds, all blocks and operations are reached, and the log ends with the number of
nodes, edges and unresolved assignments of what is returned.  If it fails, the log stops at the
first faulty position.  The last event is that of the operation there; if the store does not hold
that operation, it is that of the operation before in the block, or of the block.  Nothing is
logged as built. -/
theorem log_mirrors_run (s : BuildSettings) (body : ProcedureBody) :
    match (buildWithTrace s body).result with
    | .ok (g, t) => (buildWithTrace s body).log
        = body.firstEvent :: body.eventsOfBlocks body.layout.blocks
          ++ [.built body.name g.nodeCount g.edgeCount t.unresolvedTargets.length]
    | .error e => ∃ k m block o last, body.layout.blocks[k]? = some block ∧
        block.operations[m]? = some o ∧ body.FirstFault s (body.layout.start k + m) e ∧
        body.StopsWith o e last ∧
        (buildWithTrace s body).log = body.eventsBefore k block m ++ last ∧
        ((m = 0 ∧ (body.eventsBefore k block m).getLast? = some block.event) ∨
          ∃ n before operation, m = n + 1 ∧ block.operations[n]? = some before ∧
            body.store.get? before = some operation ∧
            (body.eventsBefore k block m).getLast? = operation.events.getLast?) ∧
        ∀ function nodes edges unresolved,
          .built function nodes edges unresolved ∉ (buildWithTrace s body).log := by
  cases hresult : (buildWithTrace s body).result with
  | ok found => exact log_of_ok hresult
  | error e =>
      have herror : build s body = .error e := by
        rw [build, hresult]
        rfl
      obtain ⟨i, hfirst⟩ := ((build_outcome s body).2.1 e).mp herror
      obtain ⟨k, block, hblock⟩ := BlockLayout.exists_holdsAt hfirst.1.faulty.lt_length
      obtain ⟨m, rfl⟩ := Nat.exists_eq_add_of_le hblock.2.1
      obtain ⟨o, ho, -⟩ := hfirst.1.faulty
      obtain ⟨last, hlast, hlog⟩ := log_of_firstFault hfirst hblock ho
      rw [hblock.getElem?_operations, Nat.add_sub_cancel_left] at ho
      rw [Nat.add_sub_cancel_left] at hlog
      refine ⟨k, m, block, o, last, hblock.1, ho, hfirst, hlast, hlog,
        getLast?_eventsBefore hblock hfirst.2, fun function nodes edges unresolved => ?_⟩
      rw [hlog, List.mem_append, not_or]
      exact ⟨ProcedureBody.built_notMem_eventsBefore _ _ _ _, hlast.built_notMem _ _ _ _⟩

end Build

end ProgramSlice
