import ProgramSlice.Proofs.Build.Repeats

/-!
# What a build depends on

Two bodies are *alike* if they have the same name, list the same operations entry by entry, and
listed operations have the same effects: what they write, whether their target is unresolved, and
which symbols they read.  All else may differ, such as the numbers of blocks, the declared symbols,
the operations that no block lists, and of the listed ones the recorded handles, the texts and
spans, and whatever their expressions are made of.

A build cannot tell alike bodies apart (`build_of_alike`).  This is a statement about two runs, and
it is proved by following both at once: `InStep` relates what the two have found out behind the same
number of visits, and the next visit either stops both or keeps them in step (`InStep.receive`).
The graphs of the two runs cite the same reasons at every moment, but reads in another order record
them in another order, so the edges may be listed differently.
-/

namespace ProgramSlice

/-! ## Alike bodies -/

/-- Two operations write, leave unresolved and read the same. -/
structure Operation.SameEffects (o o' : Operation) : Prop where
  writtenSymbol : o.writtenSymbol = o'.writtenSymbol
  hasUnresolvedTarget : o.hasUnresolvedTarget = o'.hasUnresolvedTarget
  readSymbols : ∀ symbol, symbol ∈ o.readSymbols ↔ symbol ∈ o'.readSymbols

instance (o o' : Operation) : Decidable (o.SameEffects o') :=
  decidable_of_iff (o.writtenSymbol = o'.writtenSymbol ∧
      o.hasUnresolvedTarget = o'.hasUnresolvedTarget ∧
      o.readSymbols ⊆ o'.readSymbols ∧ o'.readSymbols ⊆ o.readSymbols)
    ⟨fun ⟨hwritten, hunresolved, hreads, hreads'⟩ =>
        ⟨hwritten, hunresolved, fun _ => ⟨(hreads ·), (hreads' ·)⟩⟩,
      fun h => ⟨h.writtenSymbol, h.hasUnresolvedTarget, fun _ => (h.readSymbols _).mp,
        fun _ => (h.readSymbols _).mpr⟩⟩

instance : (stored stored' : Option Operation) →
    Decidable (Option.Rel Operation.SameEffects stored stored')
  | none, none => isTrue .none
  | some _, some _ => decidable_of_iff _ Option.rel_some_some.symm
  | none, some _ => isFalse nofun
  | some _, none => isFalse nofun

namespace ProcedureBody

/-- Two bodies have the same name and, entry by entry, list operations with the same effects.  An
operation that one of the bodies does not hold, the other does not hold either. -/
structure Alike (body body' : ProcedureBody) : Prop where
  name : body.name = body'.name
  blocks : body.layout.blocks.map (·.operations) = body'.layout.blocks.map (·.operations)
  operations : ∀ o ∈ body.layout.operations,
    Option.Rel Operation.SameEffects (body.store.get? o) (body'.store.get? o)

instance (body body' : ProcedureBody) : Decidable (body.Alike body') :=
  decidable_of_iff (body.name = body'.name ∧
      body.layout.blocks.map (·.operations) = body'.layout.blocks.map (·.operations) ∧
      ∀ o ∈ body.layout.operations,
        Option.Rel Operation.SameEffects (body.store.get? o) (body'.store.get? o))
    ⟨fun ⟨hname, hblocks, hoperations⟩ => ⟨hname, hblocks, hoperations⟩,
      fun h => ⟨h.name, h.blocks, h.operations⟩⟩

theorem Alike.get?_cases {body body' : ProcedureBody} {o : OperationId} (h : body.Alike body')
    (ho : o ∈ body.layout.operations) :
    (body.store.get? o = none ∧ body'.store.get? o = none) ∨
      ∃ operation operation', body.store.get? o = some operation ∧
        body'.store.get? o = some operation' ∧ operation.SameEffects operation' := by
  have heffects := h.operations o ho
  generalize body.store.get? o = stored at heffects ⊢
  generalize body'.store.get? o = stored' at heffects ⊢
  cases heffects with
  | none => exact Or.inl ⟨rfl, rfl⟩
  | some heffects => exact Or.inr ⟨_, _, rfl, rfl, heffects⟩

/-- Listed operations read their symbols for the first time in the same order. -/
def ReadInOrder (body body' : ProcedureBody) : Prop :=
  ∀ o ∈ body.layout.operations,
    (body.store.get? o).map Operation.firstReads = (body'.store.get? o).map Operation.firstReads

end ProcedureBody

/-- An error without the number of the block that it names. -/
def BuildError.unnumbered : BuildError → BuildError
  | .unknownOperation functionId _ o => .unknownOperation functionId 0 o
  | .duplicateOperation functionId _ o => .duplicateOperation functionId 0 o
  | .nodeLimitExceeded functionId limit => .nodeLimitExceeded functionId limit
  | .settings cause => .settings cause

/-! ## The same visits -/

/-- A visit without the number of its block. -/
def Visit.unnumbered (v : Visit) : Option OperationId × OperationId := (v.previous, v.operation)

namespace BasicBlock

/-- Operations that follow a given one in a block, each with the one before it. -/
def steps : Option OperationId → List OperationId → List (Option OperationId × OperationId)
  | _, [] => []
  | previous, o :: rest => (previous, o) :: steps (some o) rest

theorem unnumbered_visits_block (ordinal : UInt64) (previous : Option OperationId)
    (operations : List OperationId) :
    ((visits ordinal previous operations).filterMap Stop.visit?).map Visit.unnumbered
      = steps previous operations := by
  induction operations generalizing previous with
  | nil => rfl
  | cons o rest ih => exact congrArg _ (ih (some o))

end BasicBlock

namespace BlockLayout

variable {l l' : BlockLayout} {n : Nat} {v : Visit}

theorem operations_eq_of_blocks (h : l.blocks.map (·.operations) = l'.blocks.map (·.operations)) :
    l.operations = l'.operations := by
  rw [operations, operations, List.flatMap_def, List.flatMap_def, h]

/-- But for the numbers of the blocks, visits are read off the operations of the entries. -/
theorem unnumbered_visits (l : BlockLayout) :
    l.visits.map Visit.unnumbered
      = (l.blocks.map (·.operations)).flatMap (BasicBlock.steps none) := by
  rw [visits_eq_flatMap, List.map_flatMap, List.flatMap_map]
  exact List.flatMap_congr fun b _ => BasicBlock.unnumbered_visits_block b.ordinal none b.operations

/-- Layouts that list the same operations entry by entry have the same visits, but for the numbers
of the blocks. -/
theorem exists_visits_of_blocks (h : l.blocks.map (·.operations) = l'.blocks.map (·.operations))
    (hv : l.visits[n]? = some v) :
    ∃ v', l'.visits[n]? = some v' ∧ v'.previous = v.previous ∧ v'.operation = v.operation := by
  have hvisits : l'.visits.map Visit.unnumbered = l.visits.map Visit.unnumbered := by
    rw [unnumbered_visits, unnumbered_visits, h]
  have hn : l'.visits[n]?.map Visit.unnumbered = some v.unnumbered := by
    rw [← List.getElem?_map, hvisits, List.getElem?_map, hv, Option.map_some]
  obtain ⟨v', hv', heq⟩ := Option.map_eq_some_iff.mp hn
  exact ⟨v', hv', congrArg Prod.fst heq, congrArg Prod.snd heq⟩

end BlockLayout

/-! ## Operations with the same effects -/

section SameEffects

variable {operation operation' : Operation} {s : BuildSettings} {t : BuildTrace}
  {previous : Option OperationId} {b : OperationId} {r : Reason}

/-- Operations with the same effects are noted alike. -/
theorem BuildTrace.note_congr (h : operation.SameEffects operation') (t : BuildTrace)
    (o : OperationId) (previous : Option OperationId) :
    t.note o previous operation = t.note o previous operation' := by
  rw [note, note, noteWrite, noteWrite, h.writtenSymbol, h.hasUnresolvedTarget]

/-- Operations with the same effects give rise to the same dependencies, in some order. -/
theorem mem_causes_congr (h : operation.SameEffects operation') :
    (b, r) ∈ causes s t previous operation ↔ (b, r) ∈ causes s t previous operation' := by
  have hreads : ∀ symbol, operation.action.Reads symbol ↔ operation'.action.Reads symbol := by
    intro symbol
    rw [← Action.mem_readSymbols, ← Action.mem_readSymbols]
    exact h.readSymbols symbol
  simp only [mem_causes, hreads]

end SameEffects

/-! ## Two runs in step -/

namespace Findings

variable {s : BuildSettings} {body body' : ProcedureBody} {n : Nat} {f f' : Findings} {v v' : Visit}
  {operation operation' : Operation}

/-- What two runs have found out behind the same number of visits. -/
structure InStep (s : BuildSettings) (body body' : ProcedureBody) (n : Nat) (f f' : Findings) :
    Prop where
  tracks : f.Tracks s body n
  tracks' : f'.Tracks s body' n
  functionId : f.graph.functionId = f'.graph.functionId
  trace : f.trace = f'.trace
  cites : ∀ a b r, f.graph.Cites a b r ↔ f'.graph.Cites a b r
  inOrder : body.ReadInOrder body' → f.graph = f'.graph

/-- Two outcomes are errors that differ in the number of a block at most, or findings in step. -/
inductive Matched (s : BuildSettings) (body body' : ProcedureBody) (n : Nat) :
    Except BuildError Findings → Except BuildError Findings → Prop
  | error {e e' : BuildError} (h : e.unnumbered = e'.unnumbered) :
      Matched s body body' n (.error e) (.error e')
  | ok {f f' : Findings} (h : InStep s body body' n f f') : Matched s body body' n (.ok f) (.ok f')

theorem functionId_absorb (f : Findings) (o : OperationId) (previous : Option OperationId)
    (operation : Operation) :
    (f.absorb s o previous operation).graph.functionId = f.graph.functionId :=
  DependencyGraph.addCauses_induction (P := fun g => g.functionId = f.graph.functionId)
    (DependencyGraph.functionId_addNode _ _)
    fun _ _ _ h => (DependencyGraph.functionId_alterDependency ..).trans h

namespace InStep

theorem begun (h : body.Alike body') : InStep s body body' 0 (begun body) (begun body') where
  tracks := .begun s body
  tracks' := .begun s body'
  functionId := h.name
  trace := rfl
  cites := fun _ _ _ =>
    iff_of_false (DependencyGraph.not_cites_empty _) (DependencyGraph.not_cites_empty _)
  inOrder := fun _ => congrArg (fun name : String => (⟨name, [], []⟩ : DependencyGraph)) h.name

theorem nodes (hbody : body.Alike body') (h : InStep s body body' n f f') :
    f.graph.nodes = f'.graph.nodes := by
  rw [h.tracks.nodes, h.tracks'.nodes, BlockLayout.operations_eq_of_blocks hbody.blocks]

section Step

variable (hbody : body.Alike body') (h : InStep s body body' n f f')
  (hv : body.layout.visits[n]? = some v) (hv' : body'.layout.visits[n]? = some v')
  (hprevious : v'.previous = v.previous) (hoperation : v'.operation = v.operation)

include h hv hv' hprevious hoperation in
/-- **Taking in operations with the same effects** keeps two runs in step. -/
theorem absorb (hstore : body.store.get? v.operation = some operation)
    (hstore' : body'.store.get? v'.operation = some operation')
    (heffects : operation.SameEffects operation') (hnew : v.operation ∉ f.graph.nodes)
    (hnew' : v'.operation ∉ f'.graph.nodes) :
    InStep s body body' (n + 1) (f.absorb s v.operation v.previous operation)
      (f'.absorb s v'.operation v'.previous operation') where
  tracks := h.tracks.absorb hv hstore hnew
  tracks' := h.tracks'.absorb hv' hstore' hnew'
  functionId := by
    rw [functionId_absorb, functionId_absorb, h.functionId]
  trace := by
    rw [Findings.absorb, Findings.absorb, h.trace, hprevious, hoperation]
    exact BuildTrace.note_congr heffects _ _ _
  cites := by
    intro a b r
    rw [Findings.absorb, Findings.absorb, DependencyGraph.cites_addCauses,
      DependencyGraph.cites_addCauses, DependencyGraph.cites_addNode, DependencyGraph.cites_addNode,
      h.cites, h.trace, hprevious, hoperation, BuildTrace.note_congr heffects,
      mem_causes_congr heffects]
  inOrder := by
    intro horder
    have hreads : operation.firstReads = operation'.firstReads := by
      have heq := horder v.operation (BlockLayout.mem_of_visits hv)
      rw [hstore, ← hoperation, hstore'] at heq
      exact Option.some.inj heq
    rw [Findings.absorb, Findings.absorb, h.inOrder horder, h.trace, hprevious, hoperation,
      BuildTrace.note_congr heffects]
    exact DependencyGraph.addCauses_causes_congr (h.tracks'.wellFormed.addNode _) hreads

include hbody h hv hv' hprevious hoperation in
/-- **The next visit** stops both runs with the same error, or keeps them in step. -/
theorem receive :
    Matched s body body' (n + 1) (f.receive s body v) (f'.receive s body' v') := by
  have hnodes : v'.operation ∈ f'.graph.nodes ↔ v.operation ∈ f.graph.nodes := by
    rw [hoperation, h.nodes hbody]
  rcases hbody.get?_cases (BlockLayout.mem_of_visits hv) with
    ⟨hstore, hstore'⟩ | ⟨operation, operation', hstore, hstore', heffects⟩
  · rw [← hoperation] at hstore'
    rw [receive_of_unknown hstore, receive_of_unknown hstore', hbody.name, hoperation]
    exact .error rfl
  · rw [← hoperation] at hstore'
    -- the checks look at the nodes only, and these are the same
    by_cases hseen : v.operation ∈ f.graph.nodes
    · rw [receive_of_seen hstore hseen, receive_of_seen hstore' (hnodes.mpr hseen), hbody.name,
        hoperation]
      exact .error rfl
    · have hseen' : v'.operation ∉ f'.graph.nodes := mt hnodes.mp hseen
      have hcount := h.tracks.nodeCount_addNode hv hseen
      have hcount' := h.tracks'.nodeCount_addNode hv' hseen'
      by_cases hfull : s.maxNodes.toNat < n + 1
      · rw [receive_of_full hstore hseen (by rwa [hcount]),
          receive_of_full hstore' hseen' (by rwa [hcount']), hbody.name]
        exact .error rfl
      · rw [receive_of_room hstore hseen (by rwa [hcount]),
          receive_of_room hstore' hseen' (by rwa [hcount'])]
        exact .ok (h.absorb hv hv' hprevious hoperation hstore hstore' heffects hseen hseen')

end Step

end InStep

/-- **Two runs over alike bodies** stop at the same visit or stay in step. -/
theorem matched_upTo (hbody : body.Alike body') (hn : n ≤ body.layout.operations.length) :
    Matched s body body' n (upTo s body n) (upTo s body' n) := by
  induction n with
  | zero => exact .ok (.begun hbody)
  | succ n ih =>
      obtain ⟨v, hv⟩ := exists_visit hn
      obtain ⟨v', hv', hprevious, hoperation⟩ :=
        BlockLayout.exists_visits_of_blocks hbody.blocks hv
      rw [upTo_succ hv, upTo_succ hv']
      -- an error ends both runs, whatever is visited behind it
      have hmatched := ih (Nat.le_of_succ_le hn)
      generalize upTo s body n = outcome at hmatched ⊢
      generalize upTo s body' n = outcome' at hmatched ⊢
      cases hmatched with
      | error h => exact .error h
      | ok h => exact h.receive hbody hv hv' hprevious hoperation

end Findings

/-! ## The build -/

/-- **A build does not tell alike bodies apart.**  Either both fail, with errors that differ in the
number of a block at most, or both have a graph.  The graphs have the same nodes, in the same order,
and the same edges, each with the same provenance, and the traces are the same.  If the first reads
of the operations are in the same order too, then so are the edges. -/
theorem build_of_alike {body body' : ProcedureBody} (h : body.Alike body') (s : BuildSettings) :
    (∃ e e', (buildWithTrace s body).result = .error e ∧
      (buildWithTrace s body').result = .error e' ∧ e.unnumbered = e'.unnumbered) ∨
    ∃ g g' t, (buildWithTrace s body).result = .ok (g, t) ∧
      (buildWithTrace s body').result = .ok (g', t) ∧ g.functionId = g'.functionId ∧
      g.nodes = g'.nodes ∧ g.edges.Perm g'.edges ∧
      (body.ReadInOrder body' → g.edges = g'.edges) := by
  have hmatched := Findings.matched_upTo (s := s) h le_rfl
  rw [result_buildWithTrace, result_buildWithTrace,
    ← BlockLayout.operations_eq_of_blocks h.blocks]
  generalize Findings.upTo s body body.layout.operations.length = outcome at hmatched ⊢
  generalize Findings.upTo s body' body.layout.operations.length = outcome' at hmatched ⊢
  cases hmatched with
  | error he => exact Or.inl ⟨_, _, rfl, rfl, he⟩
  | @ok f f' hstep =>
      have hperm : f.graph.edges.Perm f'.graph.edges :=
        DependencyGraph.edges_perm_of_cites hstep.tracks.wellFormed hstep.tracks.coherent
          hstep.tracks'.wellFormed hstep.tracks'.coherent hstep.cites
      refine Or.inr ⟨f.graph, f'.graph, f.trace, rfl, ?_, hstep.functionId, hstep.nodes h, hperm,
        fun horder => congrArg _ (hstep.inOrder horder)⟩
      rw [hstep.trace]
      rfl

/-- A body like `sharedNumbers`, with other block numbers, recorded handles and expressions, and an
operation that no block lists.  The reads of both variables are in another order. -/
def rewordedNumbers : ProcedureBody :=
  let x : SymbolId := ⟨0⟩
  let y : SymbolId := ⟨1⟩
  let call : Expression :=
    .invocation "max" (some (.localRef y)) [.elementAccess (.parameterRef x) (.localRef y)]
  let operation (action : Action) : Operation := ⟨⟨9⟩, action, some "?", none⟩
  { name := "sharedNumbers"
    symbols := (SymbolTable.declare {} "x" .parameter).2
    store := ⟨[operation (.bindParameter x (.int 2)),
      operation (.declare y (.unary .neg (.localRef x))), operation (.declare x call),
      operation (.assign (.parameterRef x) call), operation (.evaluate call)]⟩
    layout := ⟨[⟨7, [⟨0⟩, ⟨1⟩]⟩, ⟨0, []⟩, ⟨7, [⟨2⟩, ⟨3⟩]⟩]⟩ }

theorem build_of_alike_rewordedNumbers :
    sharedNumbers.Alike rewordedNumbers ∧
    ∃ g g' t, (buildWithTrace {} sharedNumbers).result = .ok (g, t) ∧
      (buildWithTrace {} rewordedNumbers).result = .ok (g', t) ∧
      g.edges.Perm g'.edges ∧ g.edges ≠ g'.edges := by
  have halike : sharedNumbers.Alike rewordedNumbers := by decide +kernel
  have hdiffer : (buildWithTrace {} sharedNumbers).result.toOption.map (·.1.edges)
      ≠ (buildWithTrace {} rewordedNumbers).result.toOption.map (·.1.edges) := by decide +kernel
  have hok : (buildWithTrace {} sharedNumbers).result.isOk = true := by decide +kernel
  rcases build_of_alike halike {} with ⟨e, e', he, _⟩ | ⟨g, g', t, hg, hg', _, _, hperm, _⟩
  · rw [he] at hok
    cases hok
  · rw [hg, hg'] at hdiffer
    exact ⟨halike, g, g', t, hg, hg', hperm, fun heq => hdiffer (congrArg some heq)⟩

end ProgramSlice
