import ProgramSlice.Body.Procedure

/-!
# Assembling a body call by call

An assembler holds a body under construction.  Operations go to the block that is open;
`nextBlock` closes it and opens another, and `finish` closes the last one, even when it is empty.
Each operation stands on a line of its own, and its span covers the bytes of its text.

`Call` names the calls, so that a whole run of them is a list.
-/

namespace ProgramSlice

/-- A body under construction. -/
structure Assembler where
  /-- The symbols, operations and closed blocks so far. -/
  body : ProcedureBody
  /-- The operations of the open block. -/
  openBlock : List OperationId := []
  /-- The line that the next operation stands on: a word of 32 bits, which begins anew at zero. -/
  nextLine : UInt32 := 1
deriving DecidableEq

namespace Assembler

/-- Begin a body without symbols, operations or blocks. -/
def start (name : String) : Assembler := { body := { name } }

/-- Declare a symbol. -/
def symbol (a : Assembler) (kind : SymbolKind) (name : String) : SymbolId × Assembler :=
  let (id, symbols) := a.body.symbols.declare name kind
  (id, { a with body := { a.body with symbols } })

/-- Append an operation to the open block. -/
def append (a : Assembler) (action : Action) (text : String) : OperationId × Assembler :=
  let span := Span.onLine a.nextLine 0 (UInt32.ofNat text.utf8ByteSize)
  let (id, store) := a.body.store.add action (some text) (some span)
  (id, { body := { a.body with store }, openBlock := a.openBlock ++ [id]
         nextLine := a.nextLine + 1 })

/-- Close the open block and open another. -/
def nextBlock (a : Assembler) : Assembler :=
  { a with body := { a.body with layout := (a.body.layout.push a.openBlock).2 }, openBlock := [] }

/-- Close the open block, even when it is empty, and give up the body. -/
def finish (a : Assembler) : ProcedureBody := a.nextBlock.body

/-! ## Runs of calls -/

/-- A call to an assembler. -/
inductive Call where
  /-- Declare a symbol. -/
  | symbol (kind : SymbolKind) (name : String)
  /-- Append an operation. -/
  | append (action : Action) (text : String)
  /-- Close the open block. -/
  | nextBlock
deriving DecidableEq

/-- What a call gives back. -/
inductive Reply where
  /-- The handle of the symbol that was declared. -/
  | symbol (id : SymbolId)
  /-- The handle of the operation that was appended. -/
  | operation (id : OperationId)
  /-- Nothing. -/
  | done
deriving DecidableEq

namespace Call

/-- Declare a local variable. -/
def localVariable (name : String) : Call := .symbol .localVariable name

/-- Declare a parameter. -/
def parameter (name : String) : Call := .symbol .parameter name

/-- Declare a field. -/
def field (name : String) : Call := .symbol .field name

/-- Append an assignment. -/
def assign (target value : Expression) (text : String) : Call := .append (.assign target value) text

/-- Append a declaration. -/
def declare (symbol : SymbolId) (initializer : Expression) (text : String) : Call :=
  .append (.declare symbol initializer) text

/-- Append the binding of a parameter. -/
def bindParameter (parameter : SymbolId) (value : Expression) (text : String) : Call :=
  .append (.bindParameter parameter value) text

/-- Append the evaluation of an expression. -/
def evaluate (expression : Expression) (text : String) : Call := .append (.evaluate expression) text

end Call

/-- Make one call. -/
def perform (a : Assembler) : Call → Reply × Assembler
  | .symbol kind name => let (id, a) := a.symbol kind name; (.symbol id, a)
  | .append action text => let (id, a) := a.append action text; (.operation id, a)
  | .nextBlock => (.done, a.nextBlock)

/-- Make calls one after the other and collect what they give back. -/
def performAll (a : Assembler) : List Call → List Reply × Assembler
  | [] => ([], a)
  | c :: rest =>
      let (reply, a) := a.perform c
      let (replies, a) := a.performAll rest
      (reply :: replies, a)

end Assembler

end ProgramSlice
