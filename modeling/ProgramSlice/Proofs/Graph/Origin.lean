import ProgramSlice.Proofs.Build.Edges

/-!
# Where graphs come from

A graph is begun empty, built from a body or loaded from a record, and may then be grown call by
call and renamed.  `DependencyGraph.Arises` says that a graph came about in this way, with any
number of calls in any order.  What is said of every graph is said of these, and what the
ways of growing a graph keep, all of them have (`Arises.wellFormed`).
-/

namespace ProgramSlice

namespace DependencyGraph

/-- A graph came about by the operations that make and grow graphs: it was begun empty, built from a
body or loaded from any record, and then operations were registered, dependencies recorded and the
graph given to other functions. -/
inductive Arises : DependencyGraph → Prop
  | empty (functionId : String) : Arises { functionId }
  | built {s : BuildSettings} {body : ProcedureBody} {g : DependencyGraph}
      (h : build s body = .ok g) : Arises g
  | loaded (r : GraphRecord) : Arises (ofRecord r)
  | addNode {g : DependencyGraph} (h : Arises g) (o : OperationId) : Arises (g.addNode o)
  | addDependency {g : DependencyGraph} (h : Arises g) (a b : OperationId) (r : Reason) :
      Arises (g.addDependency a b r).2
  | rename {g : DependencyGraph} (h : Arises g) (functionId : String) :
      Arises (g.rename functionId)

/-- **Every graph is well-formed,** however it came about. -/
theorem Arises.wellFormed {g : DependencyGraph} (h : g.Arises) : g.WellFormed := by
  induction h with
  | empty functionId => exact .empty functionId
  | built h => exact wellFormed_of_build h
  | loaded r => exact .ofRecord r
  | addNode _ o ih => exact ih.addNode o
  | addDependency _ a b r ih => exact ih.addDependency a b r
  | rename _ functionId ih => exact ih.rename functionId

end DependencyGraph

end ProgramSlice
