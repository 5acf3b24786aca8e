import ProgramSlice.Body.Operation

/-!
# Blocks

A procedure is given as basic blocks, each a run of operations without a branch, in one fixed
order.  The edges between blocks stay with the front end: of the control flow only this order and
the order within a block are used.
-/

namespace ProgramSlice

/-- A run of operations without a branch. -/
structure BasicBlock where
  /-- The number that the front end gave the block.  Only messages mention it. -/
  ordinal : UInt64
  /-- The operations in the order of execution. -/
  operations : List OperationId
deriving DecidableEq

/-- Whether a block has no operation. -/
def BasicBlock.isEmpty (b : BasicBlock) : Bool := b.operations.isEmpty

/-- The blocks of a procedure in their order. -/
structure BlockLayout where
  /-- The blocks, first one first. -/
  blocks : List BasicBlock := []
deriving DecidableEq

namespace BlockLayout

/-- The number that the next block is given: its position. -/
def nextOrdinal (l : BlockLayout) : UInt64 := UInt64.ofNat l.blocks.length

/-- Append a block numbered by its position. -/
def push (l : BlockLayout) (operations : List OperationId) : UInt64 × BlockLayout :=
  (l.nextOrdinal, ⟨l.blocks ++ [⟨l.nextOrdinal, operations⟩]⟩)

/-- Append a block that keeps the number it has. -/
def append (l : BlockLayout) (block : BasicBlock) : BlockLayout := ⟨l.blocks ++ [block]⟩

/-- All operations in traversal order. -/
def operations (l : BlockLayout) : List OperationId := l.blocks.flatMap (·.operations)

/-- The number of operations listed, repeated ones counted again. -/
def operationCount (l : BlockLayout) : Nat :=
  l.blocks.foldl (fun count block => count + block.operations.length) 0

/-- Every listed operation is counted. -/
theorem length_operations (l : BlockLayout) : l.operations.length = l.operationCount := by
  have hcount : ∀ (blocks : List BasicBlock) (n : Nat),
      blocks.foldl (fun count block => count + block.operations.length) n
        = n + (blocks.flatMap (·.operations)).length := by
    intro blocks
    induction blocks with
    | nil => simp
    | cons block rest ih =>
        intro n
        rw [List.foldl_cons, ih, List.flatMap_cons, List.length_append, Nat.add_assoc]
  rw [operationCount, hcount, Nat.zero_add, operations]

end BlockLayout

end ProgramSlice
