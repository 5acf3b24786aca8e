import ProgramSlice.Build.Pass

/-!
# Building many bodies

Bodies are independent of each other: each gets its own graph or its own error, in the order of
the bodies, and a failure of one does not touch the others.  The log of a batch states totals.
-/

namespace ProgramSlice

/-- What came of a batch. -/
structure BatchReport where
  /-- The totals. -/
  log : List Event
  /-- A graph or an error for each body. -/
  results : List (Except BuildError DependencyGraph)

/-- Whether a build came to nothing. -/
def buildFailed : Except BuildError DependencyGraph → Bool
  | .error _ => true
  | .ok _ => false

/-- Build every body.  Failures are reported only if there are any. -/
def buildAll (s : BuildSettings) (bodies : List ProcedureBody) : BatchReport :=
  let results := bodies.map (build s)
  let failed := results.countP buildFailed
  let done := Event.batchDone bodies.length (bodies.length - failed)
  ⟨if failed = 0 then [done] else [.someFailed failed bodies.length, done], results⟩

end ProgramSlice
