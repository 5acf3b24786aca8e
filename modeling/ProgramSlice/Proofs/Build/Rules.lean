import Mathlib.Order.Bounds.Basic
import ProgramSlice.Build.Pass
import ProgramSlice.Proofs.Body.Position
import ProgramSlice.Proofs.Body.Reads
import ProgramSlice.Proofs.Graph.Reasons

/-!
# The two rules, by positions

A pass applies its rules operation by operation and carries the last writers along.  Said without a
pass, both rules are relations between positions of the traversal.

* *Sequencing* relates a position to the one before it, if they lie in one entry of the layout.
* *Data* relates a position that reads a symbol to the greatest position, itself included, whose
  operation writes the symbol.

`ProcedureBody.Gives` is the two of them together.  The other half of the file is what one
operation adds to a pass: the causes that it gives rise to (`mem_causes`), the reasons that a graph
cites when they are recorded (`cites_addCauses`) and the last writers when it is noted
(`get?_lastWriter_note`).
-/

namespace ProgramSlice

namespace ProcedureBody

variable {s : BuildSettings} {body : ProcedureBody} {i j n : Nat} {symbol : SymbolId}

/-- The operation that stands at a position, if the store holds it. -/
def operationAt (body : ProcedureBody) (i : Nat) : Option Operation :=
  body.layout.operations[i]?.bind body.store.get?

/-- The operation at a position writes a symbol. -/
def WritesAt (body : ProcedureBody) (i : Nat) (symbol : SymbolId) : Prop :=
  ∃ operation, body.operationAt i = some operation ∧ operation.writtenSymbol = some symbol

/-- The operation at a position reads a symbol. -/
def ReadsAt (body : ProcedureBody) (i : Nat) (symbol : SymbolId) : Prop :=
  ∃ operation, body.operationAt i = some operation ∧ operation.action.Reads symbol

/-- The position `j` is the last one at or before `i` whose operation writes the symbol. -/
def LastWrite (body : ProcedureBody) (symbol : SymbolId) (i j : Nat) : Prop :=
  IsGreatest {k | k ≤ i ∧ body.WritesAt k symbol} j

/-- **The rules.**  They give a reason why the operation at one position depends on the operation
at another. -/
inductive Gives (s : BuildSettings) (body : ProcedureBody) : Nat → Nat → Reason → Prop
  /-- The other position is the one before, in the same entry of the layout. -/
  | sequencing {j : Nat} (hs : s.includeSequencing = true)
      (hblock : body.layout.SameBlock (j + 1) j) : Gives s body (j + 1) j .sequencing
  /-- The other position last wrote a symbol that is read. -/
  | data {i j : Nat} {symbol : SymbolId} (hd : s.includeData = true)
      (hread : body.ReadsAt i symbol) (hwrite : body.LastWrite symbol i j) :
      Gives s body i j (.data symbol)

/-- **No rule looks ahead.** -/
theorem Gives.le {r : Reason} (h : Gives s body i j r) : j ≤ i := by
  cases h with
  | sequencing => exact Nat.le_succ j
  | data _ _ hwrite => exact hwrite.1.1

/-- The position `j` is the last of the first `n` positions whose operation writes the symbol. -/
def LastWriteBefore (body : ProcedureBody) (symbol : SymbolId) (n j : Nat) : Prop :=
  IsGreatest {k | k < n ∧ body.WritesAt k symbol} j

theorem lastWriteBefore_succ :
    body.LastWriteBefore symbol (n + 1) j ↔ body.LastWrite symbol n j := by
  simp only [LastWriteBefore, LastWrite, Nat.lt_succ_iff]

/-- A position that writes takes over from the earlier ones. -/
theorem lastWrite_of_writesAt (h : body.WritesAt n symbol) :
    body.LastWrite symbol n j ↔ j = n := by
  constructor
  · intro hj
    exact Nat.le_antisymm hj.1.1 (hj.2 ⟨le_rfl, h⟩)
  · rintro rfl
    exact ⟨⟨le_rfl, h⟩, fun k hk => hk.1⟩

/-- A position that does not write leaves the last write where it was. -/
theorem lastWrite_of_not_writesAt (h : ¬ body.WritesAt n symbol) :
    body.LastWrite symbol n j ↔ body.LastWriteBefore symbol n j := by
  have hset : {k | k ≤ n ∧ body.WritesAt k symbol} = {k | k < n ∧ body.WritesAt k symbol} := by
    ext k
    constructor
    · rintro ⟨hle, hk⟩
      exact ⟨Nat.lt_of_le_of_ne hle (fun heq => h (heq ▸ hk)), hk⟩
    · rintro ⟨hlt, hk⟩
      exact ⟨hlt.le, hk⟩
  rw [LastWrite, LastWriteBefore, hset]

end ProcedureBody

/-! ## What one operation adds -/

namespace BuildTrace

@[simp] theorem lastWriter_notePrevious (t : BuildTrace) (o : OperationId)
    (previous : Option OperationId) : (t.notePrevious o previous).lastWriter = t.lastWriter := by
  cases previous <;> rfl

/-- **Noting an operation** makes it the last writer of the symbol that it writes. -/
theorem get?_lastWriter_note (t : BuildTrace) (o : OperationId) (previous : Option OperationId)
    (operation : Operation) (symbol : SymbolId) :
    (t.note o previous operation).lastWriter.get? symbol
      = if operation.writtenSymbol = some symbol then some o else t.lastWriter.get? symbol := by
  rw [note, noteWrite]
  cases hw : operation.writtenSymbol with
  | some written =>
      simp only [HandleMap.get?_insert, lastWriter_notePrevious, Option.some.injEq,
        eq_comm (a := symbol)]
  | none =>
      simp only [reduceCtorEq, if_false]
      split <;> rw [lastWriter_notePrevious]

end BuildTrace

section Causes

variable {s : BuildSettings} {t : BuildTrace} {previous : Option OperationId}
  {operation : Operation} {b : OperationId} {r : Reason}

theorem mem_sequencingCauses : (b, r) ∈ sequencingCauses s previous ↔
    s.includeSequencing = true ∧ previous = some b ∧ r = .sequencing := by
  rw [sequencingCauses]
  split
  · next hs =>
    simp only [List.mem_map, Option.mem_toList, Prod.mk.injEq]
    constructor
    · rintro ⟨p, hp, rfl, rfl⟩
      exact ⟨hs, hp, rfl⟩
    · rintro ⟨_, hp, rfl⟩
      exact ⟨b, hp, rfl, rfl⟩
  · next hs => simp [hs]

theorem mem_dataCauses : (b, r) ∈ dataCauses s t.lastWriter operation.readSymbols ↔
    ∃ symbol, s.includeData = true ∧ operation.action.Reads symbol ∧
      t.lastWriter.get? symbol = some b ∧ r = .data symbol := by
  rw [dataCauses]
  split
  · next hd =>
    simp only [List.mem_filterMap, Option.map_eq_some_iff, Prod.mk.injEq]
    refine exists_congr fun symbol => ?_
    rw [Operation.readSymbols, Action.mem_readSymbols]
    constructor
    · rintro ⟨hread, writer, hwriter, rfl, rfl⟩
      exact ⟨hd, hread, hwriter, rfl⟩
    · rintro ⟨_, hread, hwriter, rfl⟩
      exact ⟨hread, b, hwriter, rfl, rfl⟩
  · next hd => simp [hd]

/-- An operation gives rise to a dependency on the one before it, and on the last writer of each
symbol that it reads. -/
theorem mem_causes : (b, r) ∈ causes s t previous operation ↔
    (s.includeSequencing = true ∧ previous = some b ∧ r = .sequencing) ∨
    ∃ symbol, s.includeData = true ∧ operation.action.Reads symbol ∧
      t.lastWriter.get? symbol = some b ∧ r = .data symbol := by
  rw [causes, List.mem_append, mem_sequencingCauses, mem_dataCauses]

end Causes

namespace DependencyGraph

variable {g : DependencyGraph} {o : OperationId} {causes : List (OperationId × Reason)}

/-- What each call of `addDependency` keeps, recording all causes of an operation keeps. -/
theorem addCauses_induction {P : DependencyGraph → Prop} (hg : P g)
    (hstep : ∀ g b r, P g → P (g.addDependency o b r).2) : P (g.addCauses o causes) :=
  List.foldlRecOn (motive := P) _ _ hg fun g h cause _ => hstep g cause.1 cause.2 h

theorem WellFormed.addCauses (hg : g.WellFormed) (o : OperationId)
    (causes : List (OperationId × Reason)) : (g.addCauses o causes).WellFormed :=
  addCauses_induction hg fun _ b r hg => hg.addDependency o b r

/-- **Recording causes** makes the graph cite them. -/
theorem cites_addCauses {a b : OperationId} {r : Reason} :
    (g.addCauses o causes).Cites a b r ↔ (a = o ∧ (b, r) ∈ causes) ∨ g.Cites a b r := by
  induction causes generalizing g with
  | nil => simp [addCauses]
  | cons cause rest ih =>
      have hcons : g.addCauses o (cause :: rest)
          = (g.addDependency o cause.1 cause.2).2.addCauses o rest := rfl
      rw [hcons, ih, cites_addDependency, List.mem_cons, Prod.ext_iff]
      tauto

/-- Dependencies between operations that are registered add no node. -/
theorem nodes_addCauses (ho : o ∈ g.nodes) (h : ∀ cause ∈ causes, cause.1 ∈ g.nodes) :
    (g.addCauses o causes).nodes = g.nodes := by
  induction causes generalizing g with
  | nil => rfl
  | cons cause rest ih =>
      have hnodes : (g.addDependency o cause.1 cause.2).2.nodes = g.nodes :=
        nodes_alterDependency_of_mem ho (h cause List.mem_cons_self)
      have hrest : ∀ c ∈ rest, c.1 ∈ (g.addDependency o cause.1 cause.2).2.nodes := by
        intro c hc
        rw [hnodes]
        exact h c (List.mem_cons_of_mem _ hc)
      have hcons : g.addCauses o (cause :: rest)
          = (g.addDependency o cause.1 cause.2).2.addCauses o rest := rfl
      rw [hcons, ih (by rwa [hnodes]) hrest, hnodes]

end DependencyGraph

end ProgramSlice
