import ProgramSlice.Handle.Basic

/-!
# Symbols

A symbol is what an operation reads or writes: a local, a parameter or a field.  It is named by
its declaration and never by its spelling, so two locals called `x` in different scopes are two
symbols.  `SymbolTable` hands out the handles, in the order of declaration.
-/

namespace ProgramSlice

/-- The handle of a symbol. -/
structure SymbolId where
  /-- The number of the declaration. -/
  index : UInt32
deriving DecidableEq

namespace SymbolId

instance : Handle SymbolId where
  number s := s.index.toNat
  number_injective h := by
    rename_i a b
    cases a; cases b
    exact congrArg SymbolId.mk (UInt32.toNat_inj.mp h)

/-- A symbol without a name of its own is shown by its number. -/
def display (s : SymbolId) : String := "s" ++ toString s.index.toNat

end SymbolId

/-- Where a symbol is declared. -/
inductive SymbolKind where
  /-- A local variable of the body. -/
  | localVariable
  /-- A parameter of the procedure. -/
  | parameter
  /-- A field of some object. -/
  | field
deriving DecidableEq

/-- The name of a kind in reports. -/
def SymbolKind.name : SymbolKind → String
  | .localVariable => "local"
  | .parameter => "parameter"
  | .field => "field"

/-- A declared symbol. -/
structure Symbol where
  /-- The handle it was given. -/
  id : SymbolId
  /-- Its spelling. -/
  name : String
  /-- Where it is declared. -/
  kind : SymbolKind
deriving DecidableEq

/-- The symbols of a body in the order of their declaration. -/
structure SymbolTable where
  /-- The declared symbols, first declaration first. -/
  symbols : List Symbol := []
deriving DecidableEq

namespace SymbolTable

/-- The handle that the next declaration is given.  Handles are words of 32 bits: the first `2 ^ 32`
declarations get different ones, after that they begin anew. -/
def nextId (t : SymbolTable) : SymbolId := ⟨UInt32.ofNat t.symbols.length⟩

/-- Declare a symbol: its handle is its position in the table. -/
def declare (t : SymbolTable) (name : String) (kind : SymbolKind) : SymbolId × SymbolTable :=
  (t.nextId, ⟨t.symbols ++ [⟨t.nextId, name, kind⟩]⟩)

/-- A symbol is looked up by its position, whatever handle is recorded with it. -/
def get? (t : SymbolTable) (s : SymbolId) : Option Symbol := t.symbols[s.index.toNat]?

/-- The spelling of a symbol, or its number if the table does not have it. -/
def displayName (t : SymbolTable) (s : SymbolId) : String :=
  match t.get? s with
  | some symbol => symbol.name
  | none => s.display

/-- The number of declared symbols. -/
def size (t : SymbolTable) : Nat := t.symbols.length

/-- Whether nothing is declared. -/
def isEmpty (t : SymbolTable) : Bool := t.symbols.isEmpty

end SymbolTable

end ProgramSlice
