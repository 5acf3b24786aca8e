import ProgramSlice.Body.Block

/-!
# Procedure bodies

Everything that is known of one procedure: its name, its symbols, its operations and its blocks.
-/

namespace ProgramSlice

/-- One procedure. -/
structure ProcedureBody where
  /-- The full name, by which graphs and messages refer to the procedure. -/
  name : String
  /-- The declared symbols. -/
  symbols : SymbolTable := {}
  /-- The operations that blocks refer to. -/
  store : OperationStore := {}
  /-- The blocks in order. -/
  layout : BlockLayout := {}
deriving DecidableEq

end ProgramSlice
