import ProgramSlice.Body.Symbol
import ProgramSlice.Handle.Set

/-!
# Why one operation depends on another

Two rules produce dependencies.  *Sequencing* ties an operation to the one before it in its block;
*data* ties a read of a symbol to the operation that last wrote it.  Both rules may hit the same
pair, several symbols may, and the provenance of the pair gathers all of it.
-/

namespace ProgramSlice

/-- Which of the rules produced a dependency. -/
inductive DependencyType where
  /-- The dependency is the operation before, in the same block. -/
  | sequencing
  /-- The dependency last wrote a symbol that the dependent reads. -/
  | data
  /-- Both. -/
  | both
deriving DecidableEq

namespace DependencyType

/-- The name of a type in reports. -/
def name : DependencyType → String
  | .sequencing => "SEQUENCING"
  | .data => "DATA"
  | .both => "BOTH"

/-- Whether the sequencing rule took part. -/
def includesSequencing : DependencyType → Bool
  | .sequencing | .both => true
  | .data => false

/-- Whether the data rule took part. -/
def includesData : DependencyType → Bool
  | .data | .both => true
  | .sequencing => false

/-- The rules of two types together. -/
def merge (s t : DependencyType) : DependencyType := if s = t then s else .both

@[simp] theorem includesSequencing_merge (s t : DependencyType) :
    (s.merge t).includesSequencing = (s.includesSequencing || t.includesSequencing) := by
  cases s <;> cases t <;> rfl

@[simp] theorem includesData_merge (s t : DependencyType) :
    (s.merge t).includesData = (s.includesData || t.includesData) := by
  cases s <;> cases t <;> rfl

end DependencyType

/-- Why one call records a dependency. -/
inductive Reason where
  /-- By the sequencing rule. -/
  | sequencing
  /-- By the data rule, for this symbol. -/
  | data (symbol : SymbolId)
deriving DecidableEq

/-- The type of a dependency that has this reason alone. -/
def Reason.type : Reason → DependencyType
  | .sequencing => .sequencing
  | .data _ => .data

/-- All that is known of why a pair depends. -/
structure Provenance where
  /-- The rules that produced it. -/
  type : DependencyType
  /-- The symbols whose reads resolved to the dependency. -/
  symbols : HandleSet SymbolId
deriving DecidableEq

namespace Provenance

/-- Add the symbol of a reason, if it has one. -/
def addSymbol (symbols : HandleSet SymbolId) : Reason → HandleSet SymbolId
  | .sequencing => symbols
  | .data symbol => symbols.insert symbol

/-- The provenance that a single reason gives. -/
def ofReason (r : Reason) : Provenance := ⟨r.type, addSymbol HandleSet.empty r⟩

/-- Fold a further reason in. -/
def record (p : Provenance) (r : Reason) : Provenance :=
  ⟨p.type.merge r.type, addSymbol p.symbols r⟩

end Provenance

end ProgramSlice
