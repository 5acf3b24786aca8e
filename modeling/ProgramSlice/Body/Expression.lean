import ProgramSlice.Body.Symbol

/-!
# Expressions

The expression trees that operations carry.  Only the shapes that matter to dependencies are told
apart: references to symbols, which are the leaves that are read or written, and the nodes that
nest them.

A tree is listed in pre-order in two ways.  `preorder` is the plain recursion on the tree and is
what the meaning of a listing is stated by.  `descendants` walks the tree with its own stack of
pending sub-expressions, so that the depth of a tree costs memory and not machine stack.
-/

namespace ProgramSlice

/-- A constant. -/
inductive Literal where
  /-- A whole number of 64 bits. -/
  | int (value : Int64)
  /-- A truth value. -/
  | bool (value : Bool)
  /-- A text. -/
  | str (value : String)
  /-- The absent reference. -/
  | null
deriving DecidableEq

/-- Operators on two operands. -/
inductive BinaryOperator where
  | add | sub | mul | div | rem
  | eq | ne | lt | le | gt | ge
  | and | or
deriving DecidableEq

/-- Operators on one operand. -/
inductive UnaryOperator where
  | neg | not
deriving DecidableEq

/-- An expression tree. -/
inductive Expression where
  /-- A constant. -/
  | literal (value : Literal)
  /-- A mention of a local variable. -/
  | localRef (symbol : SymbolId)
  /-- A mention of a parameter. -/
  | parameterRef (symbol : SymbolId)
  /-- A mention of a field, of an object given by an expression or of the current one. -/
  | fieldRef (owner : Option Expression) (field : SymbolId)
  /-- An operator applied to two operands. -/
  | binary (op : BinaryOperator) (left right : Expression)
  /-- An operator applied to one operand. -/
  | unary (op : UnaryOperator) (operand : Expression)
  /-- A call, on an object if there is a receiver. -/
  | invocation (method : String) (receiver : Option Expression) (arguments : List Expression)
  /-- An element of a collection. -/
  | elementAccess (collection index : Expression)

namespace Expression

/-! ## Building trees -/

/-- A whole number. -/
def int (value : Int64) : Expression := .literal (.int value)

/-- A call without a receiver. -/
def call (method : String) (arguments : List Expression) : Expression :=
  .invocation method none arguments

/-! ## Taking trees apart -/

/-- The immediate sub-expressions from left to right; a receiver stands before the arguments. -/
def children : Expression → List Expression
  | .literal _ | .localRef _ | .parameterRef _ => []
  | .fieldRef owner _ => owner.toList
  | .binary _ left right => [left, right]
  | .unary _ operand => [operand]
  | .invocation _ receiver arguments => receiver.toList ++ arguments
  | .elementAccess collection index => [collection, index]

/-- The symbol that the root of a tree mentions. -/
def referencedSymbol : Expression → Option SymbolId
  | .localRef s | .parameterRef s => some s
  | .fieldRef _ field => some field
  | _ => none

/-- The symbol that the root of a tree reads.  A field is not read through its symbol: which
object it belongs to is not known, so it takes no part in the last-writer rule. -/
def readSymbol : Expression → Option SymbolId
  | .localRef s | .parameterRef s => some s
  | _ => none

mutual

/-- The number of nodes of a tree. -/
def size : Expression → Nat
  | .literal _ | .localRef _ | .parameterRef _ => 1
  | .fieldRef owner _ => sizeOption owner + 1
  | .binary _ left right => left.size + right.size + 1
  | .unary _ operand => operand.size + 1
  | .invocation _ receiver arguments => sizeOption receiver + sizeList arguments + 1
  | .elementAccess collection index => collection.size + index.size + 1

/-- The number of nodes of a tree that may be absent. -/
def sizeOption : Option Expression → Nat
  | none => 0
  | some e => e.size

/-- The number of nodes of several trees. -/
def sizeList : List Expression → Nat
  | [] => 0
  | e :: rest => e.size + sizeList rest

end

theorem sizeList_append (l m : List Expression) : sizeList (l ++ m) = sizeList l + sizeList m := by
  induction l with
  | nil => simp [sizeList]
  | cons e rest ih => simp [sizeList, ih, Nat.add_assoc]

theorem sizeList_toList (owner : Option Expression) : sizeList owner.toList = sizeOption owner := by
  cases owner <;> simp [sizeList, sizeOption]

/-- A tree is its root and its children. -/
theorem size_eq (e : Expression) : e.size = sizeList e.children + 1 := by
  cases e <;> simp [size, children, sizeList, sizeList_append, sizeList_toList]

/-! ## Listing trees in pre-order -/

mutual

/-- The sub-expressions of a tree by recursion: the root, then the listings of its children from
left to right. -/
def preorder : Expression → List Expression
  | .literal value => [.literal value]
  | .localRef s => [.localRef s]
  | .parameterRef s => [.parameterRef s]
  | .fieldRef owner field => .fieldRef owner field :: preorderOption owner
  | .binary op left right => .binary op left right :: (left.preorder ++ right.preorder)
  | .unary op operand => .unary op operand :: operand.preorder
  | .invocation method receiver arguments =>
      .invocation method receiver arguments :: (preorderOption receiver ++ preorderList arguments)
  | .elementAccess collection index =>
      .elementAccess collection index :: (collection.preorder ++ index.preorder)

/-- The listing of a tree that may be absent. -/
def preorderOption : Option Expression → List Expression
  | none => []
  | some e => e.preorder

/-- The listings of several trees one after the other. -/
def preorderList : List Expression → List Expression
  | [] => []
  | e :: rest => e.preorder ++ preorderList rest

end

/-- A walk through trees. -/
structure Walk where
  /-- The stack of sub-expressions that are still to be visited, the one on top first. -/
  pending : List Expression

namespace Walk

/-- A walk that begins at the root of a tree. -/
def start (e : Expression) : Walk := ⟨[e]⟩

/-- Put a sub-expression on top of the stack. -/
def push (w : Walk) (e : Expression) : Walk := ⟨e :: w.pending⟩

/-- Visit the sub-expression on top of the stack, if there is one.  Its children are put there in
its place, from right to left, so that the leftmost one is visited next. -/
def next (w : Walk) : Option (Expression × Walk) :=
  match w.pending with
  | [] => none
  | e :: rest => some (e, e.children.reverse.foldl push ⟨rest⟩)

/-- The number of nodes that are still to be visited. -/
def work (w : Walk) : Nat := sizeList w.pending

theorem pending_foldl_push (l : List Expression) (w : Walk) :
    (l.foldl push w).pending = l.reverse ++ w.pending := by
  induction l generalizing w with
  | nil => rfl
  | cons e rest ih => simp [ih, push]

/-- What a visit does: the top comes off the stack, and the children lie there from left to right,
since they are pushed from right to left. -/
theorem exists_of_next {w rest : Walk} {e : Expression} (h : w.next = some (e, rest)) :
    ∃ below, w = ⟨e :: below⟩ ∧ rest = ⟨e.children ++ below⟩ := by
  obtain ⟨_ | ⟨f, below⟩⟩ := w
  · cases h
  · obtain ⟨rfl, rfl⟩ := Prod.mk.inj (Option.some.inj h)
    have hpushed := pending_foldl_push f.children.reverse ⟨below⟩
    rw [List.reverse_reverse] at hpushed
    exact ⟨below, rfl, congrArg Walk.mk hpushed⟩

/-- **A visit leaves one node less to visit.** -/
theorem work_of_next {w rest : Walk} {e : Expression} (h : w.next = some (e, rest)) :
    w.work = rest.work + 1 := by
  obtain ⟨below, rfl, rfl⟩ := exists_of_next h
  rw [work, work, sizeList_append, sizeList, size_eq, Nat.add_right_comm]

/-- Visit all that is still to be visited.  The listing begins with what was seen before, which
`visited` holds, latest first. -/
def run (w : Walk) (visited : List Expression) : List Expression :=
  match _ : w.next with
  | none => visited.reverse
  | some (e, rest) => run rest (e :: visited)
termination_by w.work
decreasing_by
  rw [work_of_next ‹w.next = some (e, rest)›]
  exact Nat.lt_succ_self _

end Walk

/-- All sub-expressions of a tree, itself included, in pre-order. -/
def descendants (e : Expression) : List Expression := (Walk.start e).run []

/-! ## Equality of trees -/

mutual

/-- Whether two trees are the same. -/
def same : Expression → Expression → Bool
  | .literal v, .literal w => v == w
  | .localRef s, .localRef t => s == t
  | .parameterRef s, .parameterRef t => s == t
  | .fieldRef o s, .fieldRef p t => sameOption o p && s == t
  | .binary o l r, .binary p m s => o == p && same l m && same r s
  | .unary o e, .unary p f => o == p && same e f
  | .invocation m r as, .invocation n s bs => m == n && sameOption r s && sameList as bs
  | .elementAccess c i, .elementAccess d j => same c d && same i j
  | _, _ => false

/-- Whether two trees that may be absent are the same. -/
def sameOption : Option Expression → Option Expression → Bool
  | none, none => true
  | some e, some f => same e f
  | _, _ => false

/-- Whether two lists of trees are the same. -/
def sameList : List Expression → List Expression → Bool
  | [], [] => true
  | e :: es, f :: fs => same e f && sameList es fs
  | _, _ => false

end

mutual

theorem same_iff (e f : Expression) : same e f = true ↔ e = f := by
  cases e <;> cases f <;>
    simp [same, same_iff, sameOption_iff, sameList_iff, and_assoc]

theorem sameOption_iff (o p : Option Expression) : sameOption o p = true ↔ o = p := by
  cases o <;> cases p <;> simp [sameOption, same_iff]

theorem sameList_iff (es fs : List Expression) : sameList es fs = true ↔ es = fs := by
  cases es <;> cases fs <;> simp [sameList, same_iff, sameList_iff]

end

instance : DecidableEq Expression := fun e f => decidable_of_iff _ (same_iff e f)

end Expression

end ProgramSlice
