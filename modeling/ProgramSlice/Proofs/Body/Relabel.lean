import Mathlib.Algebra.Group.End
import Mathlib.GroupTheory.Perm.Basic
import Mathlib.Tactic
import ProgramSlice.Body.Procedure
import ProgramSlice.Proofs.Body.Reads

/-!
# Bodies under other names

A body names its symbols and its operations by handles, and both may be given other names.

Symbols are named in expressions, in declarations and in parameters, and a renaming goes through all
of them (`Operation.relabel`).  What an operation writes and reads goes along with it.

An operation is named by its position, so other names for operations are another order of the store:
`OperationStore.permute` moves the operations and `ProcedureBody.permute` follows them in the
blocks.  A handle that names nothing is left as it is.
-/

namespace ProgramSlice

/-! ## Other names for symbols -/

namespace Expression

mutual

/-- A tree with other names for its symbols. -/
def relabel (σ : SymbolId → SymbolId) : Expression → Expression
  | .literal value => .literal value
  | .localRef s => .localRef (σ s)
  | .parameterRef s => .parameterRef (σ s)
  | .fieldRef owner field => .fieldRef (relabelOption σ owner) (σ field)
  | .binary op left right => .binary op (left.relabel σ) (right.relabel σ)
  | .unary op operand => .unary op (operand.relabel σ)
  | .invocation method receiver arguments =>
      .invocation method (relabelOption σ receiver) (relabelList σ arguments)
  | .elementAccess collection index => .elementAccess (collection.relabel σ) (index.relabel σ)

/-- A tree that may be absent, with other names for its symbols. -/
def relabelOption (σ : SymbolId → SymbolId) : Option Expression → Option Expression
  | none => none
  | some e => some (e.relabel σ)

/-- Several trees with other names for their symbols. -/
def relabelList (σ : SymbolId → SymbolId) : List Expression → List Expression
  | [] => []
  | e :: rest => e.relabel σ :: relabelList σ rest

end

variable {σ : SymbolId → SymbolId}

mutual

theorem relabel_id : ∀ e : Expression, e.relabel id = e
  | .literal _ | .localRef _ | .parameterRef _ => by simp [relabel]
  | .fieldRef owner _ => by simp [relabel, relabelOption_id owner]
  | .binary _ left right => by simp [relabel, relabel_id left, relabel_id right]
  | .unary _ operand => by simp [relabel, relabel_id operand]
  | .invocation _ receiver arguments => by
      simp [relabel, relabelOption_id receiver, relabelList_id arguments]
  | .elementAccess collection index => by simp [relabel, relabel_id collection, relabel_id index]

theorem relabelOption_id : ∀ o : Option Expression, relabelOption id o = o
  | none => rfl
  | some e => by rw [relabelOption, relabel_id e]

theorem relabelList_id : ∀ l : List Expression, relabelList id l = l
  | [] => rfl
  | e :: rest => by rw [relabelList, relabel_id e, relabelList_id rest]

end

mutual

/-- The listing of a tree goes along. -/
theorem preorder_relabel : ∀ e : Expression, (e.relabel σ).preorder = e.preorder.map (relabel σ)
  | .literal _ | .localRef _ | .parameterRef _ => by simp [preorder, relabel]
  | .fieldRef owner _ => by simp [preorder, relabel, preorderOption_relabel owner]
  | .binary _ left right => by
      simp [preorder, relabel, preorder_relabel left, preorder_relabel right]
  | .unary _ operand => by simp [preorder, relabel, preorder_relabel operand]
  | .invocation _ receiver arguments => by
      simp [preorder, relabel, preorderOption_relabel receiver, preorderList_relabel arguments]
  | .elementAccess collection index => by
      simp [preorder, relabel, preorder_relabel collection, preorder_relabel index]

theorem preorderOption_relabel : ∀ o : Option Expression,
    preorderOption (relabelOption σ o) = (preorderOption o).map (relabel σ)
  | none => rfl
  | some e => by rw [relabelOption, preorderOption, preorderOption, preorder_relabel e]

theorem preorderList_relabel : ∀ l : List Expression,
    preorderList (relabelList σ l) = (preorderList l).map (relabel σ)
  | [] => rfl
  | e :: rest => by
      rw [relabelList, preorderList, preorderList, preorder_relabel e, preorderList_relabel rest,
        List.map_append]

end

theorem referencedSymbol_relabel (e : Expression) :
    (e.relabel σ).referencedSymbol = e.referencedSymbol.map σ := by
  cases e <;> simp [relabel, referencedSymbol]

theorem readSymbol_relabel (e : Expression) :
    (e.relabel σ).readSymbol = e.readSymbol.map σ := by
  cases e <;> simp [relabel, readSymbol]

end Expression

namespace Action

/-- An action with other names for its symbols. -/
def relabel (σ : SymbolId → SymbolId) : Action → Action
  | .assign target value => .assign (target.relabel σ) (value.relabel σ)
  | .declare symbol initializer => .declare (σ symbol) (initializer.relabel σ)
  | .bindParameter parameter value => .bindParameter (σ parameter) (value.relabel σ)
  | .evaluate e => .evaluate (e.relabel σ)

variable {σ : SymbolId → SymbolId}

theorem relabel_id (a : Action) : a.relabel id = a := by
  cases a <;> simp [relabel, Expression.relabel_id]

theorem writtenSymbol_relabel (a : Action) :
    (a.relabel σ).writtenSymbol = a.writtenSymbol.map σ := by
  cases a <;> simp [relabel, writtenSymbol, Expression.referencedSymbol_relabel]

theorem hasUnresolvedTarget_relabel (a : Action) :
    (a.relabel σ).hasUnresolvedTarget = a.hasUnresolvedTarget := by
  cases a <;> simp [relabel, hasUnresolvedTarget, Expression.referencedSymbol_relabel]

theorem expressions_relabel (a : Action) :
    (a.relabel σ).expressions = a.expressions.map (Expression.relabel σ) := by
  cases a <;> simp [relabel, expressions]

/-- **The reads** go along, one by one and in the same order. -/
theorem readSymbols_relabel (a : Action) : (a.relabel σ).readSymbols = a.readSymbols.map σ := by
  have hlisted : (a.relabel σ).expressions.flatMap Expression.descendants
      = (a.expressions.flatMap Expression.descendants).map (Expression.relabel σ) := by
    simp only [expressions_relabel, List.flatMap_map, List.map_flatMap,
      Expression.descendants_eq_preorder, Expression.preorder_relabel]
  rw [readSymbols, readSymbols, hlisted, List.filterMap_map, List.map_filterMap]
  exact List.filterMap_congr fun e _ => Expression.readSymbol_relabel e

end Action

/-- An operation with other names for its symbols. -/
def Operation.relabel (σ : SymbolId → SymbolId) (o : Operation) : Operation :=
  { o with action := o.action.relabel σ }

/-- A body with other names for the symbols of its operations.  What is declared stays as it is. -/
def ProcedureBody.relabelSymbols (σ : SymbolId → SymbolId) (body : ProcedureBody) : ProcedureBody :=
  { body with store := ⟨body.store.operations.map (Operation.relabel σ)⟩ }

/-! ## Other positions for operations -/

/-- Blocks that list operations under other names. -/
def BlockLayout.relabel (ρ : OperationId → OperationId) (l : BlockLayout) : BlockLayout :=
  ⟨l.blocks.map fun b => { b with operations := b.operations.map ρ }⟩

namespace OperationStore

/-- The handles that name an operation of a store. -/
abbrev Handles (s : OperationStore) : Type := { o : OperationId // o.index.toNat < s.size }

/-- Where a permutation of the operations takes a handle.  What names no operation stays. -/
def moved (s : OperationStore) (p : Equiv.Perm s.Handles) : Equiv.Perm OperationId :=
  Equiv.Perm.ofSubtype p

/-- The operations in another order: the one at a position is moved to where the permutation takes
the position. -/
def permute (s : OperationStore) (p : Equiv.Perm s.Handles) : OperationStore :=
  ⟨s.operations.mapIdx fun i operation =>
    if i < UInt32.size then (s.get? ((s.moved p).symm ⟨UInt32.ofNat i⟩)).getD operation
    else operation⟩

variable {s : OperationStore} {p : Equiv.Perm s.Handles}

/-- **A moved operation is found** under its other name. -/
theorem get?_permute (o : OperationId) : (s.permute p).get? (s.moved p o) = s.get? o := by
  have hword : (s.moved p o).index.toNat < UInt32.size := (s.moved p o).index.toNat_lt_size
  have hhandle : (⟨UInt32.ofNat (s.moved p o).index.toNat⟩ : OperationId) = s.moved p o := by
    rw [UInt32.ofNat_toNat]
  rw [get?, permute, List.getElem?_mapIdx]
  simp only [if_pos hword, hhandle, Equiv.symm_apply_apply]
  by_cases ho : o.index.toNat < s.size
  · -- both handles name an operation
    have hmoved : (s.moved p o).index.toNat < s.size :=
      (Equiv.Perm.ofSubtype_apply_mem_iff_mem p o).mpr ho
    have hget : s.get? o = some s.operations[o.index.toNat] := List.getElem?_eq_getElem ho
    rw [List.getElem?_eq_getElem hmoved, hget]
    rfl
  · have hmoved : s.moved p o = o := Equiv.Perm.ofSubtype_apply_of_not_mem p ho
    have hnone : s.operations[o.index.toNat]? = none := List.getElem?_eq_none (Nat.not_lt.mp ho)
    rw [hmoved, hnone, get?, hnone]
    rfl

end OperationStore

/-- A body with its operations in another order, and with blocks that list them accordingly. -/
def ProcedureBody.permute (body : ProcedureBody) (p : Equiv.Perm body.store.Handles) :
    ProcedureBody :=
  { body with
    store := body.store.permute p
    layout := body.layout.relabel (body.store.moved p) }

end ProgramSlice
