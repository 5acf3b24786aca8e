import Mathlib.Tactic
import ProgramSlice.Body.Assembler

/-!
# What calls assemble

An assembler carries an open block, a store, a table and a line number from call to call.  What it
makes of a sequence of calls can be said without them: handles are numbered in the order of the
calls that ask for them, the `n`th operation stands on line `n + 1`, and an operation lies in the
block that has as many blocks before it as there were calls to close one.

`Records` says so of the assembler behind a sequence of calls.  Each call keeps it
(`Records.perform`, with one lemma for each kind of call), so it holds at every moment of a run
(`records_performAll`).  `Assembled` is what is left of it when the last block is closed, together
with what the calls gave back.
-/

namespace ProgramSlice

/-- The handle of the operation with a number. -/
def OperationId.ofNat (i : Nat) : OperationId := ⟨UInt32.ofNat i⟩

/-- The handle of the symbol with a number. -/
def SymbolId.ofNat (i : Nat) : SymbolId := ⟨UInt32.ofNat i⟩

theorem OperationId.toNat_ofNat {i : Nat} (h : i < 2 ^ 32) :
    (OperationId.ofNat i).index.toNat = i := UInt32.toNat_ofNat_of_lt' h

theorem SymbolId.toNat_ofNat {i : Nat} (h : i < 2 ^ 32) :
    (SymbolId.ofNat i).index.toNat = i := UInt32.toNat_ofNat_of_lt' h

/-! ## Entries of lists -/

/-- An entry of a list that grew at its end was there before, or is the one that was appended. -/
theorem getElem?_concat_cases {α : Type} {l : List α} {a b : α} {i : Nat}
    (h : (l ++ [a])[i]? = some b) :
    (l[i]? = some b ∧ (l ++ [a]).take i = l.take i) ∨ (b = a ∧ (l ++ [a]).take i = l) := by
  rcases Nat.lt_trichotomy i l.length with hlt | rfl | hgt
  · rw [List.getElem?_append_left hlt] at h
    exact Or.inl ⟨h, List.take_append_of_le_length hlt.le⟩
  · rw [List.getElem?_concat_length] at h
    exact Or.inr ⟨(Option.some.inj h).symm, List.take_left⟩
  · rw [List.getElem?_eq_none (by rw [List.length_append, List.length_singleton]; omega)] at h
    cases h

/-- What an entry of a list gives stands behind what the entries before it give. -/
theorem getElem?_filterMap_take {α β : Type} {f : α → Option β} {l : List α} {i : Nat} {a : α}
    {b : β} (ha : l[i]? = some a) (hb : f a = some b) :
    (l.filterMap f)[((l.take i).filterMap f).length]? = some b := by
  obtain ⟨hlt, rfl⟩ := List.getElem?_eq_some_iff.mp ha
  have hsplit : l.filterMap f
      = (l.take i).filterMap f ++ b :: (l.drop (i + 1)).filterMap f := by
    rw [← List.filterMap_cons_some hb, ← List.filterMap_append, List.cons_getElem_drop_succ,
      List.take_append_drop]
  rw [hsplit, List.getElem?_append_right le_rfl, Nat.sub_self, List.getElem?_cons_zero]

theorem BlockLayout.operations_push (l : BlockLayout) (operations : List OperationId) :
    (l.push operations).2.operations = l.operations ++ operations := by
  simp [push, BlockLayout.operations]

namespace Assembler

/-! ## What calls ask for -/

/-- The operation that a call appends. -/
def Call.operation? : Call → Option (Action × String)
  | .append action text => some (action, text)
  | _ => none

/-- The symbol that a call declares. -/
def Call.symbol? : Call → Option (SymbolKind × String)
  | .symbol kind name => some (kind, name)
  | _ => none

/-- The operations that calls append, in their order. -/
def appended (calls : List Call) : List (Action × String) := calls.filterMap Call.operation?

/-- The symbols that calls declare, in their order. -/
def declared (calls : List Call) : List (SymbolKind × String) := calls.filterMap Call.symbol?

theorem appended_nextBlock (calls : List Call) :
    appended (calls ++ [.nextBlock]) = appended calls := by
  simp [appended, Call.operation?]

theorem declared_nextBlock (calls : List Call) :
    declared (calls ++ [.nextBlock]) = declared calls := by
  simp [declared, Call.symbol?]

/-- How the `i`th operation is stored. -/
def stored (i : Nat) (a : Action × String) : Operation :=
  ⟨.ofNat i, a.1, some a.2,
    some (.onLine (UInt32.ofNat (i + 1)) 0 (UInt32.ofNat a.2.utf8ByteSize))⟩

/-- How the `i`th symbol is listed. -/
def listed (i : Nat) (d : SymbolKind × String) : Symbol := ⟨.ofNat i, d.2, d.1⟩

variable {name : String} {calls : List Call} {a : Assembler} {k : Nat} {o : OperationId}

/-- An operation lies in the block with a number, which may be the open one. -/
def Holds (a : Assembler) (k : Nat) (o : OperationId) : Prop :=
  (∃ block, a.body.layout.blocks[k]? = some block ∧ o ∈ block.operations) ∨
    (k = a.body.layout.blocks.length ∧ o ∈ a.openBlock)

/-- What an assembler holds behind a sequence of calls. -/
structure Records (name : String) (calls : List Call) (a : Assembler) : Prop where
  name : a.body.name = name
  store : a.body.store.operations = (appended calls).mapIdx stored
  symbols : a.body.symbols.symbols = (declared calls).mapIdx listed
  nextLine : a.nextLine = UInt32.ofNat ((appended calls).length + 1)
  ordinals : a.body.layout.blocks.map (·.ordinal)
    = (List.range (calls.count .nextBlock)).map UInt64.ofNat
  /-- The operations of the closed blocks and of the open one are numbered in their order. -/
  operations : a.body.layout.operations ++ a.openBlock
    = (List.range (appended calls).length).map OperationId.ofNat
  /-- An operation lies in the block that was open when it was appended. -/
  placed : ∀ i action text, calls[i]? = some (.append action text) →
    a.Holds ((calls.take i).count .nextBlock) (.ofNat (appended (calls.take i)).length)

namespace Records

theorem start (name : String) : Records name [] (start name) where
  name := rfl
  store := rfl
  symbols := rfl
  nextLine := rfl
  ordinals := rfl
  operations := rfl
  placed := by simp

/-! ## One call -/

theorem length_blocks (h : Records name calls a) :
    a.body.layout.blocks.length = calls.count .nextBlock := by
  have hlength := congrArg List.length h.ordinals
  rwa [List.length_map, List.length_map, List.length_range] at hlength

theorem nextId_store (h : Records name calls a) :
    a.body.store.nextId = .ofNat (appended calls).length := by
  rw [OperationStore.nextId, h.store, List.length_mapIdx, OperationId.ofNat]

theorem nextId_symbols (h : Records name calls a) :
    a.body.symbols.nextId = .ofNat (declared calls).length := by
  rw [SymbolTable.nextId, h.symbols, List.length_mapIdx, SymbolId.ofNat]

/-- **Declaring a symbol** leaves the operations and the blocks. -/
theorem symbol (h : Records name calls a) (kind : SymbolKind) (spelling : String) :
    Records name (calls ++ [.symbol kind spelling]) (a.perform (.symbol kind spelling)).2 := by
  have happended : appended (calls ++ [.symbol kind spelling]) = appended calls := by
    simp [appended, Call.operation?]
  have hdeclared : declared (calls ++ [.symbol kind spelling])
      = declared calls ++ [(kind, spelling)] := by
    simp [declared, Call.symbol?]
  have hcount : (calls ++ [Call.symbol kind spelling]).count .nextBlock
      = calls.count .nextBlock := by
    simp
  constructor
  case name => exact h.name
  case store =>
    rw [happended]
    exact h.store
  case symbols =>
    rw [hdeclared, List.mapIdx_concat, ← h.symbols, listed, ← h.nextId_symbols]
    rfl
  case nextLine =>
    rw [happended]
    exact h.nextLine
  case ordinals =>
    rw [hcount]
    exact h.ordinals
  case operations =>
    rw [happended]
    exact h.operations
  case placed =>
    intro i action text hi
    rcases getElem?_concat_cases hi with ⟨hi, htake⟩ | ⟨hcall, _⟩
    · rw [htake]
      exact h.placed i action text hi
    · cases hcall

/-- **Appending an operation** gives it the next number and puts it into the open block. -/
theorem append (h : Records name calls a) (action : Action) (text : String) :
    Records name (calls ++ [.append action text]) (a.perform (.append action text)).2 := by
  have happended : appended (calls ++ [.append action text])
      = appended calls ++ [(action, text)] := by
    simp [appended, Call.operation?]
  have hdeclared : declared (calls ++ [.append action text]) = declared calls := by
    simp [declared, Call.symbol?]
  have hcount : (calls ++ [Call.append action text]).count .nextBlock = calls.count .nextBlock := by
    simp
  have hopen : (a.perform (.append action text)).2.openBlock
      = a.openBlock ++ [.ofNat (appended calls).length] := by
    rw [← h.nextId_store]
    rfl
  constructor
  case name => exact h.name
  case store =>
    rw [happended, List.mapIdx_concat, ← h.store, stored, ← h.nextId_store, ← h.nextLine]
    rfl
  case symbols =>
    rw [hdeclared]
    exact h.symbols
  case nextLine =>
    rw [happended, List.length_append, List.length_singleton, UInt32.ofNat_add, ← h.nextLine]
    rfl
  case ordinals =>
    rw [hcount]
    exact h.ordinals
  case operations =>
    rw [hopen, happended, List.length_append, List.length_singleton, List.range_succ,
      List.map_append, ← h.operations, ← List.append_assoc]
    rfl
  case placed =>
    intro i action' text' hi
    -- the operation was appended earlier, or it is the one that is appended now
    rcases getElem?_concat_cases hi with ⟨hi, htake⟩ | ⟨_, htake⟩
    · rw [htake]
      rcases h.placed i action' text' hi with hclosed | ⟨hk, hmem⟩
      · exact Or.inl hclosed
      · exact Or.inr ⟨hk, by rw [hopen]; exact List.mem_append_left _ hmem⟩
    · rw [htake]
      refine Or.inr ⟨h.length_blocks.symm, ?_⟩
      rw [hopen]
      exact List.mem_append_right _ (List.mem_singleton_self _)

/-- **Closing the open block** gives it the next number. -/
theorem nextBlock (h : Records name calls a) :
    Records name (calls ++ [.nextBlock]) (a.perform .nextBlock).2 := by
  have hcount : (calls ++ [Call.nextBlock]).count .nextBlock = calls.count .nextBlock + 1 := by
    simp
  have hblocks : (a.perform .nextBlock).2.body.layout.blocks
      = a.body.layout.blocks ++ [⟨UInt64.ofNat (calls.count .nextBlock), a.openBlock⟩] := by
    rw [← h.length_blocks]
    rfl
  constructor
  case name => exact h.name
  case store =>
    rw [appended_nextBlock]
    exact h.store
  case symbols =>
    rw [declared_nextBlock]
    exact h.symbols
  case nextLine =>
    rw [appended_nextBlock]
    exact h.nextLine
  case ordinals =>
    rw [hblocks, hcount, List.range_succ, List.map_append, List.map_append, h.ordinals]
    rfl
  case operations =>
    have hopen : (a.perform .nextBlock).2.openBlock = [] := rfl
    rw [appended_nextBlock, ← h.operations, hopen, List.append_nil]
    exact BlockLayout.operations_push _ _
  case placed =>
    intro i action text hi
    rcases getElem?_concat_cases hi with ⟨hi, htake⟩ | ⟨hcall, _⟩
    · rw [htake]
      refine Or.inl ?_
      rw [hblocks]
      rcases h.placed i action text hi with ⟨block, hblock, hmem⟩ | ⟨hk, hmem⟩
      · exact ⟨block, List.getElem?_append_left (List.getElem?_eq_some_iff.mp hblock).1 ▸ hblock,
          hmem⟩
      · exact ⟨_, by rw [hk, List.getElem?_concat_length], hmem⟩
    · cases hcall

theorem perform (h : Records name calls a) (c : Call) :
    Records name (calls ++ [c]) (a.perform c).2 := by
  cases c with
  | symbol kind spelling => exact h.symbol kind spelling
  | append action text => exact h.append action text
  | nextBlock => exact h.nextBlock

/-! ## A run of calls -/

/-- **A run of calls keeps the records.** -/
theorem performAll (h : Records name calls a) (more : List Call) :
    Records name (calls ++ more) (a.performAll more).2 := by
  induction more generalizing calls a with
  | nil =>
      rw [List.append_nil]
      exact h
  | cons c rest ih =>
      rw [← List.singleton_append, ← List.append_assoc]
      exact ih (h.perform c)

end Records

/-- A call gives back what the assembler behind the calls before it answers. -/
theorem getElem?_replies (a : Assembler) (calls : List Call) (i : Nat) :
    (a.performAll calls).1[i]?
      = calls[i]?.map fun c => ((a.performAll (calls.take i)).2.perform c).1 := by
  induction calls generalizing a i with
  | nil => rfl
  | cons c rest ih =>
      cases i with
      | zero => rfl
      | succ i => exact ih (a.perform c).2 i

theorem length_replies (a : Assembler) (calls : List Call) :
    (a.performAll calls).1.length = calls.length := by
  induction calls generalizing a with
  | nil => rfl
  | cons c rest ih => exact congrArg (· + 1) (ih (a.perform c).2)

/-! ## The finished body -/

/-- Make calls from the start on and close the last block. -/
def assemble (name : String) (calls : List Call) : List Reply × ProcedureBody :=
  let (replies, a) := (start name).performAll calls
  (replies, a.finish)

/-- The records of the finished body are those of one more call to close a block. -/
theorem records_finish (name : String) (calls : List Call) :
    Records name (calls ++ [.nextBlock]) ((start name).performAll calls).2.nextBlock :=
  ((Records.start name).performAll calls).perform .nextBlock

theorem operations_store_assemble (name : String) (calls : List Call) :
    (assemble name calls).2.store.operations = (appended calls).mapIdx stored := by
  have hstore := (records_finish name calls).store
  rwa [appended_nextBlock] at hstore

theorem symbols_assemble (name : String) (calls : List Call) :
    (assemble name calls).2.symbols.symbols = (declared calls).mapIdx listed := by
  have hsymbols := (records_finish name calls).symbols
  rwa [declared_nextBlock] at hsymbols

theorem operations_assemble (name : String) (calls : List Call) :
    (assemble name calls).2.layout.operations
      = (List.range (appended calls).length).map OperationId.ofNat := by
  have hoperations := (records_finish name calls).operations
  have hopen : ((start name).performAll calls).2.nextBlock.openBlock = [] := rfl
  rwa [hopen, List.append_nil, appended_nextBlock] at hoperations

variable {i : Nat} {action : Action} {text : String} {kind : SymbolKind} {spelling : String}

theorem exists_block_assemble (hi : calls[i]? = some (.append action text)) :
    ∃ block, (assemble name calls).2.layout.blocks[(calls.take i).count .nextBlock]? = some block ∧
      .ofNat (appended (calls.take i)).length ∈ block.operations := by
  have hlt := (List.getElem?_eq_some_iff.mp hi).1
  have hplaced := (records_finish name calls).placed i action text
    (by rwa [List.getElem?_append_left hlt])
  rw [List.take_append_of_le_length hlt.le] at hplaced
  -- nothing is left in the open block of the finished body
  rcases hplaced with hclosed | ⟨_, hopen⟩
  · exact hclosed
  · exact absurd hopen List.not_mem_nil

theorem reply_append (hi : calls[i]? = some (.append action text)) :
    (assemble name calls).1[i]?
      = some (.operation (.ofNat (appended (calls.take i)).length)) := by
  have hrecords := (Records.start name).performAll (calls.take i)
  rw [← List.nil_append (calls.take i), ← hrecords.nextId_store]
  exact (getElem?_replies _ calls i).trans (by rw [hi]; rfl)

theorem reply_symbol (hi : calls[i]? = some (.symbol kind spelling)) :
    (assemble name calls).1[i]?
      = some (.symbol (.ofNat (declared (calls.take i)).length)) := by
  have hrecords := (Records.start name).performAll (calls.take i)
  rw [← List.nil_append (calls.take i), ← hrecords.nextId_symbols]
  exact (getElem?_replies _ calls i).trans (by rw [hi]; rfl)

/-- **A body is what calls assemble,** and these are the replies. -/
structure Assembled (name : String) (calls : List Call) (replies : List Reply)
    (body : ProcedureBody) : Prop where
  name : body.name = name
  /-- There is one block more than calls to close one, and blocks are numbered in their order. -/
  ordinals : body.layout.blocks.map (·.ordinal)
    = (List.range (calls.count Call.nextBlock + 1)).map UInt64.ofNat
  /-- The blocks list each operation once, in the order in which they were appended. -/
  operations : body.layout.operations = (List.range (appended calls).length).map OperationId.ofNat
  size_store : body.store.size = (appended calls).length
  /-- An operation is stored under its number, and its line is the next one. -/
  store : ∀ i < (appended calls).length, ∃ operation span,
    body.store.operations[i]? = some operation ∧ operation.id.index.toNat = i ∧
      operation.span = some span ∧ span.startLine.toNat = i + 1
  size_symbols : body.symbols.size = (declared calls).length
  /-- A symbol is listed under its number. -/
  symbols : ∀ i < (declared calls).length, ∃ symbol,
    body.symbols.symbols[i]? = some symbol ∧ symbol.id.index.toNat = i
  length_replies : replies.length = calls.length
  /-- An appended operation is stored under the handle that was given back, and it lies in the block
  that has a block before it for each earlier call to close one. -/
  append : ∀ i action text, calls[i]? = some (.append action text) → ∃ id operation block,
    replies[i]? = some (.operation id) ∧ id.index.toNat = (appended (calls.take i)).length ∧
      body.store.get? id = some operation ∧ operation.id = id ∧ operation.action = action ∧
      operation.text = some text ∧
      body.layout.blocks[(calls.take i).count .nextBlock]? = some block ∧ id ∈ block.operations
  /-- A declared symbol is listed under the handle that was given back. -/
  symbol : ∀ i kind spelling, calls[i]? = some (.symbol kind spelling) → ∃ id,
    replies[i]? = some (.symbol id) ∧ id.index.toNat = (declared (calls.take i)).length ∧
      body.symbols.get? id = some ⟨id, spelling, kind⟩
  nextBlock : ∀ i : Nat, calls[i]? = some .nextBlock → replies[i]? = some Reply.done

/-- **What calls assemble.**  Handles are words of 32 bits and so are lines, of which there has to
be one more. -/
theorem assembled (name : String) (calls : List Call)
    (hoperations : (appended calls).length < 2 ^ 32 - 1)
    (hsymbols : (declared calls).length < 2 ^ 32 - 1) :
    Assembled name calls (assemble name calls).1 (assemble name calls).2 := by
  constructor
  case name => exact (records_finish name calls).name
  case ordinals =>
    have hordinals := (records_finish name calls).ordinals
    rwa [List.count_append, List.count_singleton_self] at hordinals
  case operations => exact operations_assemble name calls
  case size_store => rw [OperationStore.size, operations_store_assemble, List.length_mapIdx]
  case store =>
    intro i hi
    refine ⟨stored i (appended calls)[i], _, ?_, ?_, rfl, ?_⟩
    · rw [operations_store_assemble, List.getElem?_mapIdx, List.getElem?_eq_getElem hi,
        Option.map_some]
    · exact OperationId.toNat_ofNat (by omega)
    · exact UInt32.toNat_ofNat_of_lt' (show i + 1 < 2 ^ 32 by omega)
  case size_symbols => rw [SymbolTable.size, symbols_assemble, List.length_mapIdx]
  case symbols =>
    intro i hi
    refine ⟨listed i (declared calls)[i], ?_, SymbolId.toNat_ofNat (by omega)⟩
    rw [symbols_assemble, List.getElem?_mapIdx, List.getElem?_eq_getElem hi, Option.map_some]
  case length_replies => exact length_replies _ calls
  case append =>
    intro i action text hi
    have hentry : (appended calls)[(appended (calls.take i)).length]? = some (action, text) :=
      getElem?_filterMap_take hi rfl
    have hlt := (List.getElem?_eq_some_iff.mp hentry).1
    have hnumber : (OperationId.ofNat (appended (calls.take i)).length).index.toNat = _ :=
      OperationId.toNat_ofNat (by omega)
    obtain ⟨block, hblock, hmem⟩ := exists_block_assemble hi
    refine ⟨_, stored _ (action, text), block, reply_append hi, hnumber, ?_, rfl, rfl, rfl, hblock,
      hmem⟩
    rw [OperationStore.get?, operations_store_assemble, hnumber, List.getElem?_mapIdx, hentry,
      Option.map_some]
  case symbol =>
    intro i kind spelling hi
    have hentry : (declared calls)[(declared (calls.take i)).length]? = some (kind, spelling) :=
      getElem?_filterMap_take hi rfl
    have hlt := (List.getElem?_eq_some_iff.mp hentry).1
    have hnumber : (SymbolId.ofNat (declared (calls.take i)).length).index.toNat = _ :=
      SymbolId.toNat_ofNat (by omega)
    refine ⟨_, reply_symbol hi, hnumber, ?_⟩
    rw [SymbolTable.get?, symbols_assemble, hnumber, List.getElem?_mapIdx, hentry, Option.map_some,
      listed]
  case nextBlock =>
    intro i hi
    exact (getElem?_replies _ calls i).trans (by rw [hi]; rfl)

end Assembler

end ProgramSlice
