import ProgramSlice.Body.Block

/-!
# The way through a body

A build goes through the blocks in order and through the operations of each block in order.  The
itinerary lists the stops on that way: the entry into each block, and each operation with the one
before it in its block.  It flattens the two nested orders into one list.
-/

namespace ProgramSlice

/-- A stop on the way through a body. -/
inductive Stop where
  /-- A block is entered. -/
  | enter (block : BasicBlock)
  /-- An operation is reached in the block with this number, after another one in that block. -/
  | visit (ordinal : UInt64) (previous : Option OperationId) (operation : OperationId)
deriving DecidableEq

/-- The stops at operations that follow a given one in a block. -/
def BasicBlock.visits (ordinal : UInt64) : Option OperationId → List OperationId → List Stop
  | _, [] => []
  | previous, o :: rest => .visit ordinal previous o :: visits ordinal (some o) rest

/-- The stops of a block. -/
def BasicBlock.itinerary (b : BasicBlock) : List Stop :=
  .enter b :: visits b.ordinal none b.operations

/-- The stops of a body. -/
def BlockLayout.itinerary (l : BlockLayout) : List Stop := l.blocks.flatMap BasicBlock.itinerary

end ProgramSlice
