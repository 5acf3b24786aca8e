import ProgramSlice.Proofs.Body.Relabel
import ProgramSlice.Proofs.Build.Outcome
import ProgramSlice.Proofs.Handle.Image

/-!
# A build under other names

Nothing that a build does looks at a handle but to compare it with another one.  So a build of a
body in which operations and symbols have other names finds out the same under the other names:
every step of a pass commutes with the renaming, from a single call of `addDependency` to the pass
as a whole.  Lists stay in the same order, for they are in the order in which things were met; only
sets and maps are ordered by the names themselves, and these transport as images.

The names have to be kept apart.  Where two symbols or two operations fell together, a read would
find another last writer and an operation would be taken for a repeated one.
-/

namespace ProgramSlice

variable {ρ : OperationId → OperationId} {σ : SymbolId → SymbolId}

/-! ## What is found, under other names -/

/-- A reason with another name for its symbol. -/
def Reason.relabel (σ : SymbolId → SymbolId) : Reason → Reason
  | .sequencing => .sequencing
  | .data symbol => .data (σ symbol)

/-- A dependency under other names. -/
def relabelCause (ρ : OperationId → OperationId) (σ : SymbolId → SymbolId)
    (cause : OperationId × Reason) : OperationId × Reason := (ρ cause.1, cause.2.relabel σ)

/-- A provenance with other names for its symbols. -/
def Provenance.relabel (σ : SymbolId → SymbolId) (p : Provenance) : Provenance :=
  ⟨p.type, p.symbols.image σ⟩

/-- An edge with other names for its ends and its symbols. -/
def Edge.relabel (ρ : OperationId → OperationId) (σ : SymbolId → SymbolId) (e : Edge) : Edge :=
  ⟨ρ e.dependent, ρ e.dependency, e.provenance.relabel σ⟩

/-- A graph with other names for operations and symbols, in the same order. -/
def DependencyGraph.relabel (ρ : OperationId → OperationId) (σ : SymbolId → SymbolId)
    (g : DependencyGraph) : DependencyGraph :=
  ⟨g.functionId, g.nodes.map ρ, g.edges.map (Edge.relabel ρ σ)⟩

/-- A trace with other names for operations and symbols. -/
def BuildTrace.relabel (ρ : OperationId → OperationId) (σ : SymbolId → SymbolId) (t : BuildTrace) :
    BuildTrace :=
  ⟨t.previousInBlock.image ρ ρ, t.lastWriter.image σ ρ, t.unresolvedTargets.map ρ⟩

/-- An error with another name for the operation. -/
def BuildError.relabel (ρ : OperationId → OperationId) : BuildError → BuildError
  | .unknownOperation functionId block o => .unknownOperation functionId block (ρ o)
  | .duplicateOperation functionId block o => .duplicateOperation functionId block (ρ o)
  | .nodeLimitExceeded functionId limit => .nodeLimitExceeded functionId limit
  | .settings cause => .settings cause

theorem BuildError.relabel_id (e : BuildError) : e.relabel id = e := by
  cases e <;> rfl

/-! ## Recording -/

namespace Provenance

theorem relabel_ofReason (r : Reason) : (ofReason r).relabel σ = ofReason (r.relabel σ) := by
  cases r with
  | sequencing => rfl
  | data symbol =>
      rw [ofReason, relabel, addSymbol, HandleSet.image_insert]
      rfl

theorem relabel_record (p : Provenance) (r : Reason) :
    (p.record r).relabel σ = (p.relabel σ).record (r.relabel σ) := by
  cases r <;> simp [record, addSymbol, relabel, Reason.relabel, Reason.type]

end Provenance

namespace DependencyGraph

theorem map_relabel_upsert (hρ : Function.Injective ρ) (a b : OperationId) (r : Reason)
    (edges : List Edge) :
    (Edge.upsert a b (.ofReason r) (·.record r) edges).map (Edge.relabel ρ σ)
      = Edge.upsert (ρ a) (ρ b) (.ofReason (r.relabel σ)) (·.record (r.relabel σ))
          (edges.map (Edge.relabel ρ σ)) := by
  induction edges with
  | nil => simp [Edge.upsert, Edge.relabel, Provenance.relabel_ofReason]
  | cons e rest ih =>
      have hpair : (e.relabel ρ σ).pair = (ρ a, ρ b) ↔ e.pair = (a, b) := by
        simp [Edge.relabel, Edge.pair, hρ.eq_iff]
      rw [List.map_cons, Edge.upsert, Edge.upsert]
      by_cases he : e.pair = (a, b)
      · rw [if_pos he, if_pos (hpair.mpr he), List.map_cons]
        simp [Edge.relabel, Provenance.relabel_record]
      · rw [if_neg he, if_neg (mt hpair.mp he), List.map_cons, ih]

theorem relabel_addNode (hρ : Function.Injective ρ) (g : DependencyGraph) (o : OperationId) :
    (g.addNode o).relabel ρ σ = (g.relabel ρ σ).addNode (ρ o) := by
  have hmem : ρ o ∈ g.nodes.map ρ ↔ o ∈ g.nodes := List.mem_map_of_injective hρ
  by_cases ho : o ∈ g.nodes
  · simp [addNode, relabel, ho, hmem.mpr ho]
  · simp [addNode, relabel, ho, mt hmem.mp ho]

/-- **A call** goes along. -/
theorem relabel_addDependency (hρ : Function.Injective ρ) (g : DependencyGraph) (a b : OperationId)
    (r : Reason) :
    (g.addDependency a b r).2.relabel ρ σ
      = ((g.relabel ρ σ).addDependency (ρ a) (ρ b) (r.relabel σ)).2 := by
  have hends : ((g.addNode a).addNode b).relabel ρ σ
      = ((g.relabel ρ σ).addNode (ρ a)).addNode (ρ b) := by
    rw [relabel_addNode hρ, relabel_addNode hρ]
  simp only [addDependency, alterDependency, ← hends]
  simp only [relabel, map_relabel_upsert hρ]

theorem relabel_addCauses (hρ : Function.Injective ρ) (g : DependencyGraph) (o : OperationId)
    (causes : List (OperationId × Reason)) :
    (g.addCauses o causes).relabel ρ σ
      = (g.relabel ρ σ).addCauses (ρ o) (causes.map (relabelCause ρ σ)) := by
  induction causes generalizing g with
  | nil => rfl
  | cons cause rest ih =>
      have hstep := relabel_addDependency (σ := σ) hρ g o cause.1 cause.2
      simp only [addCauses, List.foldl_cons, List.map_cons, relabelCause] at ih ⊢
      rw [ih, hstep]

end DependencyGraph

/-! ## One operation -/

section Step

variable (hρ : Function.Injective ρ) (hσ : Function.Injective σ)

namespace BuildTrace

include hρ in
theorem relabel_notePrevious (t : BuildTrace) (o : OperationId) (previous : Option OperationId) :
    (t.notePrevious o previous).relabel ρ σ
      = (t.relabel ρ σ).notePrevious (ρ o) (previous.map ρ) := by
  cases previous with
  | none => rfl
  | some p => simp [notePrevious, relabel, HandleMap.image_insert hρ]

include hσ in
theorem relabel_noteWrite (t : BuildTrace) (o : OperationId) (operation : Operation) :
    (t.noteWrite o operation).relabel ρ σ
      = (t.relabel ρ σ).noteWrite (ρ o) (operation.relabel σ) := by
  have hwritten : (operation.relabel σ).writtenSymbol = operation.writtenSymbol.map σ :=
    operation.action.writtenSymbol_relabel
  have hunresolved : (operation.relabel σ).hasUnresolvedTarget = operation.hasUnresolvedTarget :=
    operation.action.hasUnresolvedTarget_relabel
  rw [noteWrite, noteWrite, hwritten, hunresolved]
  cases operation.writtenSymbol with
  | some symbol => simp [relabel, HandleMap.image_insert hσ]
  | none => cases operation.hasUnresolvedTarget <;> simp [relabel]

include hρ hσ in
theorem relabel_note (t : BuildTrace) (o : OperationId) (previous : Option OperationId)
    (operation : Operation) :
    (t.note o previous operation).relabel ρ σ
      = (t.relabel ρ σ).note (ρ o) (previous.map ρ) (operation.relabel σ) := by
  rw [note, note, relabel_noteWrite hσ, relabel_notePrevious hρ]

end BuildTrace

include hσ in
/-- **The dependencies** of an operation go along, in the same order. -/
theorem causes_relabel (s : BuildSettings) (t : BuildTrace) (previous : Option OperationId)
    (operation : Operation) :
    causes s (t.relabel ρ σ) (previous.map ρ) (operation.relabel σ)
      = (causes s t previous operation).map (relabelCause ρ σ) := by
  have hsequencing : sequencingCauses s (previous.map ρ)
      = (sequencingCauses s previous).map (relabelCause ρ σ) := by
    rw [sequencingCauses, sequencingCauses]
    split
    · cases previous <;> rfl
    · rfl
  have hreads : (operation.relabel σ).readSymbols = operation.readSymbols.map σ :=
    operation.action.readSymbols_relabel
  have hdata : dataCauses s (t.relabel ρ σ).lastWriter (operation.relabel σ).readSymbols
      = (dataCauses s t.lastWriter operation.readSymbols).map (relabelCause ρ σ) := by
    rw [dataCauses, dataCauses, hreads]
    split
    · rw [List.filterMap_map, List.map_filterMap]
      refine List.filterMap_congr fun symbol _ => ?_
      have hwriter : (t.relabel ρ σ).lastWriter.get? (σ symbol)
          = (t.lastWriter.get? symbol).map ρ := HandleMap.get?_image_apply hσ symbol
      rw [Function.comp_apply, hwriter, Option.map_map, Option.map_map]
      rfl
    · rfl
  rw [causes, causes, hsequencing, hdata, List.map_append]

end Step

/-! ## The pass -/

/-- A visit under another name. -/
def Visit.relabel (ρ : OperationId → OperationId) (v : Visit) : Visit :=
  ⟨v.ordinal, v.previous.map ρ, ρ v.operation⟩

/-- The stops of a block go along. -/
theorem BasicBlock.visits_map (ordinal : UInt64) (previous : Option OperationId)
    (operations : List OperationId) :
    (visits ordinal (previous.map ρ) (operations.map ρ)).filterMap Stop.visit?
      = ((visits ordinal previous operations).filterMap Stop.visit?).map (Visit.relabel ρ) := by
  induction operations generalizing previous with
  | nil => rfl
  | cons o rest ih =>
      simp only [List.map_cons, visits, List.filterMap_cons, Stop.visit?]
      rw [← ih (some o)]
      rfl

namespace BlockLayout

theorem visits_relabel (l : BlockLayout) :
    (l.relabel ρ).visits = l.visits.map (Visit.relabel ρ) := by
  rw [visits_eq_flatMap, visits_eq_flatMap, relabel, List.flatMap_map, List.map_flatMap]
  exact List.flatMap_congr fun b _ => BasicBlock.visits_map b.ordinal none b.operations

theorem operations_relabel (l : BlockLayout) : (l.relabel ρ).operations = l.operations.map ρ := by
  rw [operations, operations, relabel, List.flatMap_map, List.map_flatMap]

end BlockLayout

/-- One body is another one under other names: it lists the new names, and the store holds under
each of them what the other store holds under the old name, with new names for the symbols. -/
structure ProcedureBody.Relabels (ρ : OperationId → OperationId) (σ : SymbolId → SymbolId)
    (body body' : ProcedureBody) : Prop where
  name : body'.name = body.name
  layout : body'.layout = body.layout.relabel ρ
  get? : ∀ o, body'.store.get? (ρ o) = (body.store.get? o).map (Operation.relabel σ)

namespace Findings

/-- Findings with other names for operations and symbols. -/
def relabel (ρ : OperationId → OperationId) (σ : SymbolId → SymbolId) (f : Findings) : Findings :=
  ⟨f.graph.relabel ρ σ, f.trace.relabel ρ σ⟩

/-- An outcome under other names. -/
def relabelOutcome (ρ : OperationId → OperationId) (σ : SymbolId → SymbolId)
    (outcome : Except BuildError Findings) : Except BuildError Findings :=
  (outcome.map (relabel ρ σ)).mapError (BuildError.relabel ρ)

variable {s : BuildSettings} {body body' : ProcedureBody} (hρ : Function.Injective ρ)
  (hσ : Function.Injective σ)

include hρ hσ in
theorem relabel_absorb (s : BuildSettings) (f : Findings) (o : OperationId)
    (previous : Option OperationId) (operation : Operation) :
    (f.absorb s o previous operation).relabel ρ σ
      = (f.relabel ρ σ).absorb s (ρ o) (previous.map ρ) (operation.relabel σ) := by
  simp only [absorb, relabel, DependencyGraph.relabel_addCauses hρ,
    DependencyGraph.relabel_addNode hρ, BuildTrace.relabel_note hρ hσ, ← causes_relabel hσ]

include hρ hσ in
/-- **A visit** goes along, whether it is refused or taken in. -/
theorem receive_relabel (hbody : body.Relabels ρ σ body') (f : Findings) (v : Visit) :
    (f.relabel ρ σ).receive s body' (v.relabel ρ) = relabelOutcome ρ σ (f.receive s body v) := by
  have hstore' : body'.store.get? (v.relabel ρ).operation
      = (body.store.get? v.operation).map (Operation.relabel σ) := hbody.get? v.operation
  have hseen_iff : (v.relabel ρ).operation ∈ (f.relabel ρ σ).graph.nodes ↔
      v.operation ∈ f.graph.nodes := List.mem_map_of_injective hρ
  have hcount : ((f.relabel ρ σ).graph.addNode (v.relabel ρ).operation).nodeCount
      = (f.graph.addNode v.operation).nodeCount := by
    show ((f.graph.relabel ρ σ).addNode (ρ v.operation)).nodeCount = _
    rw [← DependencyGraph.relabel_addNode hρ]
    exact List.length_map ..
  cases hstore : body.store.get? v.operation with
  | none =>
      rw [hstore] at hstore'
      rw [receive_of_unknown hstore, receive_of_unknown hstore', hbody.name]
      rfl
  | some operation =>
      rw [hstore] at hstore'
      by_cases hseen : v.operation ∈ f.graph.nodes
      · rw [receive_of_seen hstore hseen, receive_of_seen hstore' (hseen_iff.mpr hseen), hbody.name]
        rfl
      · have hnew := mt hseen_iff.mp hseen
        by_cases hfull : s.maxNodes.toNat < (f.graph.addNode v.operation).nodeCount
        · rw [receive_of_full hstore hseen hfull, receive_of_full hstore' hnew (by rwa [hcount]),
            hbody.name]
          rfl
        · rw [receive_of_room hstore hseen hfull, receive_of_room hstore' hnew (by rwa [hcount])]
          exact congrArg Except.ok (relabel_absorb hρ hσ ..).symm

include hρ hσ in
/-- **A run** goes along. -/
theorem foldlM_receive_relabel (hbody : body.Relabels ρ σ body') (visits : List Visit)
    (f : Findings) :
    (visits.map (Visit.relabel ρ)).foldlM (receive s body') (f.relabel ρ σ)
      = relabelOutcome ρ σ (visits.foldlM (receive s body) f) := by
  induction visits generalizing f with
  | nil => rfl
  | cons v rest ih =>
      rw [List.map_cons, List.foldlM_cons, List.foldlM_cons, receive_relabel hρ hσ hbody]
      cases f.receive s body v with
      | error e => rfl
      | ok f' => exact ih f'

end Findings

/-- **A build under other names** finds out the same under the other names. -/
theorem ProcedureBody.Relabels.result {s : BuildSettings} {body body' : ProcedureBody}
    (hbody : body.Relabels ρ σ body') (hρ : Function.Injective ρ) (hσ : Function.Injective σ) :
    (buildWithTrace s body').result
      = ((buildWithTrace s body).result.map fun found =>
          (found.1.relabel ρ σ, found.2.relabel ρ σ)).mapError (BuildError.relabel ρ) := by
  have hbegun : Findings.begun body' = (Findings.begun body).relabel ρ σ := by
    rw [Findings.begun, hbody.name]
    rfl
  have hupTo : Findings.upTo s body' body'.layout.operations.length
      = Findings.relabelOutcome ρ σ (Findings.upTo s body body.layout.operations.length) := by
    rw [Findings.upTo, Findings.upTo, hbody.layout, BlockLayout.operations_relabel,
      BlockLayout.visits_relabel, List.length_map, ← List.map_take, hbegun,
      Findings.foldlM_receive_relabel hρ hσ hbody]
  rw [result_buildWithTrace, result_buildWithTrace, hupTo]
  cases Findings.upTo s body body.layout.operations.length <;> rfl

/-! ## The two kinds of names -/

theorem ProcedureBody.relabels_permute (body : ProcedureBody)
    (p : Equiv.Perm body.store.Handles) :
    body.Relabels (body.store.moved p) id (body.permute p) where
  name := rfl
  layout := rfl
  get? := by
    intro o
    have hsame : ∀ operation : Operation, operation.relabel id = operation := by
      intro operation
      rw [Operation.relabel, Action.relabel_id]
    have hstore : (body.permute p).store.get? (body.store.moved p o) = body.store.get? o :=
      OperationStore.get?_permute o
    rw [hstore]
    cases body.store.get? o with
    | none => rfl
    | some operation => exact congrArg some (hsame operation).symm

theorem ProcedureBody.relabels_relabelSymbols (body : ProcedureBody) (σ : SymbolId → SymbolId) :
    body.Relabels id σ (body.relabelSymbols σ) where
  name := rfl
  layout := by simp [relabelSymbols, BlockLayout.relabel]
  get? := by
    intro o
    exact List.getElem?_map ..

/-- **Handles and symbols are nothing but names.**  If the operations of a body are put in another
order and its blocks list them accordingly, the build finds out the same about the moved operations,
in the same order, or fails at the moved operation.  If the symbols of a body are given other names,
and no two the same one, the build finds out the same about the renamed symbols, or fails alike. -/
theorem build_under_other_names (s : BuildSettings) (body : ProcedureBody) :
    (∀ p : Equiv.Perm body.store.Handles,
      (buildWithTrace s (body.permute p)).result
        = ((buildWithTrace s body).result.map fun found =>
            (found.1.relabel (body.store.moved p) id,
              found.2.relabel (body.store.moved p) id)).mapError
          (BuildError.relabel (body.store.moved p))) ∧
    ∀ σ : SymbolId ↪ SymbolId,
      (buildWithTrace s (body.relabelSymbols σ)).result
        = (buildWithTrace s body).result.map fun found =>
            (found.1.relabel id σ, found.2.relabel id σ) := by
  refine ⟨fun p => ?_, fun σ => ?_⟩
  · exact (body.relabels_permute p).result (body.store.moved p).injective Function.injective_id
  · rw [(body.relabels_relabelSymbols σ).result Function.injective_id σ.injective]
    cases (buildWithTrace s body).result with
    | error e => exact congrArg Except.error e.relabel_id
    | ok found => rfl

/-- A variable is written and another one is read.  Under one name the read finds the write. -/
example :
    let body : ProcedureBody :=
      { name := "apart"
        store := ⟨[⟨⟨0⟩, .declare ⟨0⟩ (.int 1), none, none⟩,
          ⟨⟨1⟩, .evaluate (.localRef ⟨1⟩), none, none⟩]⟩
        layout := ⟨[⟨0, [⟨0⟩, ⟨1⟩]⟩]⟩ }
    let edgeCount (body : ProcedureBody) :=
      (build ⟨false, true, 2⟩ body).toOption.map DependencyGraph.edgeCount
    edgeCount body = some 0 ∧ edgeCount (body.relabelSymbols fun _ => ⟨0⟩) = some 1 := by
  decide +kernel

end ProgramSlice
