import ProgramSlice.Body.Expression
import ProgramSlice.Body.Span
import ProgramSlice.Text.Blank

/-!
# Operations

An operation is one elementary step of a procedure: an assignment, a declaration, the binding of a
parameter, or the evaluation of an expression.  What dependencies need of it is which symbol it
writes (`writtenSymbol`) and which symbols it reads (`readSymbols`).

Operations are owned by a store and named by their position in it.  The handle recorded in an
operation is only for display; looking an operation up never consults it.
-/

namespace ProgramSlice

/-- The handle of an operation. -/
structure OperationId where
  /-- The position in the store. -/
  index : UInt32
deriving DecidableEq

namespace OperationId

instance : Handle OperationId where
  number o := o.index.toNat
  number_injective h := by
    rename_i a b
    cases a; cases b
    exact congrArg OperationId.mk (UInt32.toNat_inj.mp h)

/-- An operation is shown by its number. -/
def display (o : OperationId) : String := "op" ++ toString o.index.toNat

end OperationId

/-- What an operation does. -/
inductive Action where
  /-- Store a value in a target. -/
  | assign (target value : Expression)
  /-- Declare a local and give it its first value. -/
  | declare (symbol : SymbolId) (initializer : Expression)
  /-- Give a parameter its value. -/
  | bindParameter (parameter : SymbolId) (value : Expression)
  /-- Evaluate an expression for its effects. -/
  | evaluate (expression : Expression)
deriving DecidableEq

namespace Action

/-- The name of an action in labels and reports. -/
def name : Action → String
  | .assign .. => "assignment"
  | .declare .. => "variable_declarator"
  | .bindParameter .. => "parameter_initializer"
  | .evaluate _ => "other"

/-- The expressions of an action in source order; a target stands before its value. -/
def expressions : Action → List Expression
  | .assign target value => [target, value]
  | .declare _ initializer => [initializer]
  | .bindParameter _ value => [value]
  | .evaluate e => [e]

/-- The symbol that an action writes.  An assignment writes the symbol its target mentions; a
target that mentions none, such as an element of a collection, stays unresolved. -/
def writtenSymbol : Action → Option SymbolId
  | .assign target _ => target.referencedSymbol
  | .declare symbol _ => some symbol
  | .bindParameter parameter _ => some parameter
  | .evaluate _ => none

/-- Whether an action stores into a target that no symbol stands for. -/
def hasUnresolvedTarget : Action → Bool
  | .assign target _ => target.referencedSymbol.isNone
  | _ => false

/-- The symbols that an action reads, in source order and as often as it reads them.  The target
of an assignment is searched like any other expression. -/
def readSymbols (a : Action) : List SymbolId :=
  (a.expressions.flatMap Expression.descendants).filterMap Expression.readSymbol

end Action

/-- One elementary step of a procedure. -/
structure Operation where
  /-- The handle recorded with the operation. -/
  id : OperationId
  /-- What it does. -/
  action : Action
  /-- Its program text, if known. -/
  text : Option String
  /-- Where its program text stands, if known. -/
  span : Option Span
deriving DecidableEq

namespace Operation

/-- The symbol that an operation writes. -/
def writtenSymbol (o : Operation) : Option SymbolId := o.action.writtenSymbol

/-- Whether an operation stores into a target that no symbol stands for. -/
def hasUnresolvedTarget (o : Operation) : Bool := o.action.hasUnresolvedTarget

/-- The symbols that an operation reads, in source order and as often as it reads them. -/
def readSymbols (o : Operation) : List SymbolId := o.action.readSymbols

/-- How an operation is shown: by its trimmed program text, or by its recorded handle and the name
of its action. -/
def label (o : Operation) : String :=
  match o.text with
  | some text => Text.trim text
  | none => o.id.display ++ " (" ++ o.action.name ++ ")"

end Operation

/-- The operations of a body. -/
structure OperationStore where
  /-- The operations; the position of one is its handle. -/
  operations : List Operation := []
deriving DecidableEq

namespace OperationStore

/-- The handle that the next operation is given.  Handles are words of 32 bits: the first `2 ^ 32`
operations get different ones, after that they begin anew. -/
def nextId (s : OperationStore) : OperationId := ⟨UInt32.ofNat s.operations.length⟩

/-- Store an operation: its handle is its position. -/
def add (s : OperationStore) (action : Action) (text : Option String) (span : Option Span) :
    OperationId × OperationStore :=
  (s.nextId, ⟨s.operations ++ [⟨s.nextId, action, text, span⟩]⟩)

/-- The operation at the position that a handle names. -/
def get? (s : OperationStore) (o : OperationId) : Option Operation :=
  s.operations[o.index.toNat]?

/-- The number of operations. -/
def size (s : OperationStore) : Nat := s.operations.length

/-- Whether the store holds nothing. -/
def isEmpty (s : OperationStore) : Bool := s.operations.isEmpty

end OperationStore

end ProgramSlice
