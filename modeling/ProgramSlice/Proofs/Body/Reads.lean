import ProgramSlice.Body.Operation
import ProgramSlice.Proofs.Body.Walk

/-!
# What an operation reads

The symbols that an operation reads are collected by walking its trees with a stack.  Said without
the walk: a tree *reads* a symbol if a local or a parameter reference to the symbol stands
somewhere in it (`Expression.Reads`).

The walk is the plain listing in pre-order (`Expression.descendants_eq_preorder`), and every node
of a tree is its root or lies in one of its children; so what is collected is what is read
(`Action.mem_readSymbols`).

The order and the number of the reads are told by recursion on the trees as well
(`Expression.readSequence`), and they are those of the walk (`Action.readSymbols_eq`).
-/

namespace ProgramSlice

namespace Expression

variable {e f c : Expression} {symbol : SymbolId}

/-- A local or a parameter reference to the symbol stands somewhere in a tree.  A field is not read
through its symbol. -/
inductive Reads (symbol : SymbolId) : Expression → Prop
  /-- The tree is a reference to a local variable. -/
  | localRef : Reads symbol (.localRef symbol)
  /-- The tree is a reference to a parameter. -/
  | parameterRef : Reads symbol (.parameterRef symbol)
  /-- The reference stands in a child. -/
  | child {e c : Expression} (hc : c ∈ e.children) (h : Reads symbol c) : Reads symbol e

/-! ## The nodes of a tree -/

theorem mem_preorderList {l : List Expression} : f ∈ preorderList l ↔ ∃ c ∈ l, f ∈ c.preorder := by
  rw [preorderList_eq_flatMap, List.mem_flatMap]

theorem mem_preorder : f ∈ e.preorder ↔ f = e ∨ ∃ c ∈ e.children, f ∈ c.preorder := by
  rw [preorder_eq, List.mem_cons, mem_preorderList]

/-- A tree that is read is read at its root or in a child. -/
theorem reads_iff :
    e.Reads symbol ↔ e.readSymbol = some symbol ∨ ∃ c ∈ e.children, c.Reads symbol := by
  constructor
  · rintro (_ | _ | ⟨hc, h⟩)
    · exact Or.inl rfl
    · exact Or.inl rfl
    · exact Or.inr ⟨_, hc, h⟩
  · rintro (hroot | ⟨c, hc, h⟩)
    · cases e <;> simp [readSymbol] at hroot <;> subst hroot
      · exact .localRef
      · exact .parameterRef
    · exact .child hc h

/-- A symbol is read by the tree exactly when one of its nodes mentions it. -/
theorem exists_readSymbol_iff (e : Expression) :
    (∃ f ∈ e.preorder, f.readSymbol = some symbol) ↔ e.Reads symbol := by
  -- the children of a call are a list, so the induction is on children and not on constructors
  induction e using induction_on_children with
  | step e ih =>
      rw [reads_iff]
      constructor
      · rintro ⟨f, hf, hread⟩
        rcases mem_preorder.mp hf with rfl | ⟨c, hc, hfc⟩
        · exact Or.inl hread
        · exact Or.inr ⟨c, hc, (ih c hc).mp ⟨f, hfc, hread⟩⟩
      · rintro (hread | ⟨c, hc, h⟩)
        · exact ⟨e, mem_preorder.mpr (Or.inl rfl), hread⟩
        · obtain ⟨f, hf, hread⟩ := (ih c hc).mpr h
          exact ⟨f, mem_preorder.mpr (Or.inr ⟨c, hc, hf⟩), hread⟩

end Expression

/-! ## The reads of an operation -/

/-- An action reads a symbol in one of its trees; the target of an assignment is one of them. -/
def Action.Reads (a : Action) (symbol : SymbolId) : Prop := ∃ e ∈ a.expressions, e.Reads symbol

/-- **What is collected is what is read.** -/
theorem Action.mem_readSymbols {a : Action} {symbol : SymbolId} :
    symbol ∈ a.readSymbols ↔ a.Reads symbol := by
  simp only [readSymbols, List.mem_filterMap, List.mem_flatMap, Reads,
    ← Expression.exists_readSymbol_iff, Expression.descendants_eq_preorder]
  constructor
  · rintro ⟨f, ⟨e, he, hf⟩, hread⟩
    exact ⟨e, he, f, hf, hread⟩
  · rintro ⟨e, he, f, hf, hread⟩
    exact ⟨f, ⟨e, he, hf⟩, hread⟩

/-! ## The reads in their order -/

namespace Expression

mutual

/-- The symbols of the local and parameter references of a tree from left to right, each as often as
it is referred to. -/
def readSequence : Expression → List SymbolId
  | .literal _ => []
  | .localRef s | .parameterRef s => [s]
  | .fieldRef owner _ => readSequenceOption owner
  | .binary _ left right => left.readSequence ++ right.readSequence
  | .unary _ operand => operand.readSequence
  | .invocation _ receiver arguments =>
      readSequenceOption receiver ++ readSequenceList arguments
  | .elementAccess collection index => collection.readSequence ++ index.readSequence

/-- The reads of a tree that may be absent. -/
def readSequenceOption : Option Expression → List SymbolId
  | none => []
  | some e => e.readSequence

/-- The reads of several trees one after the other. -/
def readSequenceList : List Expression → List SymbolId
  | [] => []
  | e :: rest => e.readSequence ++ readSequenceList rest

end

mutual

/-- The references of the listing in pre-order are the reads. -/
theorem filterMap_preorder : ∀ e : Expression, e.preorder.filterMap readSymbol = e.readSequence
  | .literal _ | .localRef _ | .parameterRef _ => by simp [preorder, readSymbol, readSequence]
  | .fieldRef owner _ => by
      rw [preorder, List.filterMap_cons_none rfl, readSequence, filterMap_preorderOption owner]
  | .binary _ left right => by
      rw [preorder, List.filterMap_cons_none rfl, readSequence, List.filterMap_append,
        filterMap_preorder left, filterMap_preorder right]
  | .unary _ operand => by
      rw [preorder, List.filterMap_cons_none rfl, readSequence, filterMap_preorder operand]
  | .invocation _ receiver arguments => by
      rw [preorder, List.filterMap_cons_none rfl, readSequence, List.filterMap_append,
        filterMap_preorderOption receiver, filterMap_preorderList arguments]
  | .elementAccess collection index => by
      rw [preorder, List.filterMap_cons_none rfl, readSequence, List.filterMap_append,
        filterMap_preorder collection, filterMap_preorder index]

theorem filterMap_preorderOption : ∀ o : Option Expression,
    (preorderOption o).filterMap readSymbol = readSequenceOption o
  | none => rfl
  | some e => by rw [preorderOption, readSequenceOption, filterMap_preorder e]

theorem filterMap_preorderList : ∀ l : List Expression,
    (preorderList l).filterMap readSymbol = readSequenceList l
  | [] => rfl
  | e :: rest => by
      rw [preorderList, readSequenceList, List.filterMap_append, filterMap_preorder e,
        filterMap_preorderList rest]

end

end Expression

namespace Action

/-- The symbols that an action reads, in source order and as often as it reads them.  A target
comes before its value. -/
def readSequence : Action → List SymbolId
  | .assign target value => target.readSequence ++ value.readSequence
  | .declare _ initializer => initializer.readSequence
  | .bindParameter _ value => value.readSequence
  | .evaluate e => e.readSequence

/-- **What is collected** comes in the order in which it is read. -/
theorem readSymbols_eq (a : Action) : a.readSymbols = a.readSequence := by
  cases a <;>
    simp [readSymbols, readSequence, expressions, Expression.descendants_eq_preorder,
      Expression.filterMap_preorder]

end Action

/-- **A walk with a stack goes through a tree in pre-order.**  It visits what the recursive listing
has, in the order of the listing, and then ends; no other sequence of visits is possible.  It
visits as many sub-expressions as the tree has nodes: what it visits is what stands at the places of
the tree, each place once and in ascending order.  Hence an operation reads symbols in the order,
and as often, as its trees refer to locals and parameters from left to right, the target of an
assignment before the value. -/
theorem walked_in_preorder :
    (∀ e : Expression,
      e.descendants = e.preorder ∧
      (∀ l, (Expression.Walk.start e).Yields l ↔ l = e.preorder) ∧
      e.descendants.length = e.size ∧
      e.descendants.map some = e.places.map e.subtree? ∧
      (∀ p, p ∈ e.places ↔ (e.subtree? p).isSome) ∧
      e.places.Pairwise (· < ·)) ∧
    ∀ o : Operation, o.readSymbols = o.action.readSequence := by
  refine ⟨fun e => ⟨e.descendants_eq_preorder, fun l => Expression.Walk.yields_start_iff, ?_, ?_,
    fun p => e.mem_places, e.pairwise_places⟩, fun o => o.action.readSymbols_eq⟩
  · rw [e.descendants_eq_preorder, e.length_preorder]
  · rw [e.descendants_eq_preorder, e.map_subtree?_places]

end ProgramSlice
