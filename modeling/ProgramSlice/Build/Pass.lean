import ProgramSlice.Body.Procedure
import ProgramSlice.Build.Error
import ProgramSlice.Build.Event
import ProgramSlice.Build.Itinerary
import ProgramSlice.Graph.Basic
import ProgramSlice.Handle.Map

/-!
# Deriving the graph of a body

One pass along the itinerary of a body.  At each operation two rules apply.

* *Sequencing*: the operation depends on the one before it in its block.
* *Data*: for each symbol that the operation reads, it depends on the operation that last wrote
  the symbol.  The write of an operation counts before its reads, so one that reads what it writes
  depends on itself.

The last writers are carried from block to block in the order of the blocks.  This approximates
reaching definitions by a single line: a read behind a join sees only the writer from the block
that stands last in the order, and a loop is gone through once.

`causes` lists the dependencies that an operation gives rise to, `Findings.absorb` adds them, and
`follow` is the pass.  Everything that can fail is decided in `Findings.visit`.
-/

namespace ProgramSlice

/-- What a pass remembers besides the graph. -/
structure BuildTrace where
  /-- The operation before an operation in its block. -/
  previousInBlock : HandleMap OperationId OperationId := {}
  /-- The operation that last wrote a symbol. -/
  lastWriter : HandleMap SymbolId OperationId := {}
  /-- Assignments into targets that no symbol stands for, in traversal order. -/
  unresolvedTargets : List OperationId := []
deriving DecidableEq

namespace BuildTrace

/-- Note the operation before an operation, if there is one. -/
def notePrevious (t : BuildTrace) (o : OperationId) : Option OperationId → BuildTrace
  | some previous => { t with previousInBlock := t.previousInBlock.insert o previous }
  | none => t

/-- Note the write of an operation, or that its target is unresolved. -/
def noteWrite (t : BuildTrace) (o : OperationId) (operation : Operation) : BuildTrace :=
  match operation.writtenSymbol with
  | some symbol => { t with lastWriter := t.lastWriter.insert symbol o }
  | none =>
      if operation.hasUnresolvedTarget then
        { t with unresolvedTargets := t.unresolvedTargets ++ [o] }
      else t

/-- Note all that one operation tells. -/
def note (t : BuildTrace) (o : OperationId) (previous : Option OperationId)
    (operation : Operation) : BuildTrace :=
  (t.notePrevious o previous).noteWrite o operation

end BuildTrace

/-! ## One operation -/

/-- The dependency on the operation before, if it is asked for. -/
def sequencingCauses (s : BuildSettings) (previous : Option OperationId) :
    List (OperationId × Reason) :=
  if s.includeSequencing then previous.toList.map (·, .sequencing) else []

/-- The dependencies on last writers, one for each read that has one, if they are asked for. -/
def dataCauses (s : BuildSettings) (lastWriter : HandleMap SymbolId OperationId)
    (reads : List SymbolId) : List (OperationId × Reason) :=
  if s.includeData then
    reads.filterMap fun symbol => (lastWriter.get? symbol).map (·, .data symbol)
  else []

/-- The dependencies that an operation gives rise to, in the order of their recording.  The trace
is the one that has noted the operation already. -/
def causes (s : BuildSettings) (t : BuildTrace) (previous : Option OperationId)
    (operation : Operation) : List (OperationId × Reason) :=
  sequencingCauses s previous ++ dataCauses s t.lastWriter operation.readSymbols

/-- Record dependencies of one operation. -/
def DependencyGraph.addCauses (g : DependencyGraph) (o : OperationId)
    (causes : List (OperationId × Reason)) : DependencyGraph :=
  causes.foldl (fun g cause => (g.addDependency o cause.1 cause.2).2) g

/-- What a pass has found out so far. -/
structure Findings where
  /-- The graph so far. -/
  graph : DependencyGraph
  /-- What is remembered besides the graph. -/
  trace : BuildTrace := {}
deriving DecidableEq

/-- The log of some steps and how they ended. -/
structure Report (α : Type) where
  /-- What happened, first event first. -/
  log : List Event
  /-- What came of it. -/
  result : Except BuildError α

namespace Report

/-- Continue after some steps, unless they failed. -/
def andThen {α β : Type} (r : Report α) (next : α → Report β) : Report β :=
  match r.result with
  | .error e => ⟨r.log, .error e⟩
  | .ok a =>
      let rest := next a
      ⟨r.log ++ rest.log, rest.result⟩

end Report

namespace Findings

/-- Take in an operation that may be taken in. -/
def absorb (s : BuildSettings) (f : Findings) (o : OperationId) (previous : Option OperationId)
    (operation : Operation) : Findings :=
  let trace := f.trace.note o previous operation
  ⟨(f.graph.addNode o).addCauses o (causes s trace previous operation), trace⟩

/-- Look at one operation.  It has to exist; it must not have been seen, for then earlier
operations would depend on later ones; and there has to be room for it. -/
def visit (s : BuildSettings) (body : ProcedureBody) (f : Findings) (ordinal : UInt64)
    (previous : Option OperationId) (o : OperationId) : Report Findings :=
  match body.store.get? o with
  | none => ⟨[], .error (.unknownOperation body.name ordinal o)⟩
  | some operation =>
      let seen := Event.operation operation.label operation.action.name
      if f.graph.containsNode o then
        ⟨[seen], .error (.duplicateOperation body.name ordinal o)⟩
      else if s.maxNodes.toNat < (f.graph.addNode o).nodeCount then
        ⟨[seen], .error (.nodeLimitExceeded body.name s.maxNodes)⟩
      else
        ⟨if operation.hasUnresolvedTarget then [seen, .unresolvedTarget operation.label]
          else [seen],
          .ok (f.absorb s o previous operation)⟩

/-- Make one stop. -/
def stop (s : BuildSettings) (body : ProcedureBody) (f : Findings) : Stop → Report Findings
  | .enter block => ⟨[.block block.ordinal block.operations.length], .ok f⟩
  | .visit ordinal previous o => f.visit s body ordinal previous o

/-! ## The pass -/

/-- Make the stops of an itinerary until one fails. -/
def follow (s : BuildSettings) (body : ProcedureBody) : List Stop → Findings → Report Findings
  | [], f => ⟨[], .ok f⟩
  | next :: rest, f => (f.stop s body next).andThen (follow s body rest)

end Findings

/-- Derive the graph of a body, with the trace of the pass and its log. -/
def buildWithTrace (s : BuildSettings) (body : ProcedureBody) :
    Report (DependencyGraph × BuildTrace) :=
  let begun : Report Findings :=
    ⟨[.started body.name body.layout.blocks.length], .ok { graph := { functionId := body.name } }⟩
  (begun.andThen (Findings.follow s body body.layout.itinerary)).andThen fun f =>
    ⟨[.built body.name f.graph.nodeCount f.graph.edgeCount f.trace.unresolvedTargets.length],
      .ok (f.graph, f.trace)⟩

/-- Derive the graph of a body. -/
def build (s : BuildSettings) (body : ProcedureBody) : Except BuildError DependencyGraph :=
  (buildWithTrace s body).result.map (·.1)

end ProgramSlice
