import Mathlib.Tactic
import ProgramSlice.Proofs.Graph.Origin
import ProgramSlice.Proofs.Graph.Registration

/-!
# What a sequence of calls makes of a graph

A graph is grown call by call, and this file says what a whole sequence of calls makes of it.

* **Order.**  Nodes and pairs that are new stand behind the old ones, in the order in which the
  calls first mention them (`nodes_after`, `pairs_after`), and a call is told that its pair is new
  exactly if neither the graph nor an earlier call has it (`getElem?_answers`).
* **Provenance.**  What is known of a pair is what was known of it together with the reasons of all
  the calls on it (`Gathers`).  A graph that was loaded may tell of data without a symbol, or of
  symbols without data, so the type and the symbols are followed one by one.

Each of the parts is said of one call first and then of sequences, by `after_iff` where the part is
a relation that a call may add to.  Since the parts depend only on which calls there are, calls may
be repeated (`after_eq_self`) and put into another order (`edge?_after_of_perm`).
-/

namespace ProgramSlice

/-- A call that grows a graph. -/
inductive Call where
  /-- Register an operation. -/
  | addNode (o : OperationId)
  /-- Record a reason why an operation depends on another. -/
  | addDependency (a b : OperationId) (r : Reason)
deriving DecidableEq

namespace Call

/-- The graph behind a call. -/
def run (g : DependencyGraph) : Call → DependencyGraph
  | .addNode o => g.addNode o
  | .addDependency a b r => (g.addDependency a b r).2

/-- What a call answers: of a pair, whether it is new. -/
def answer (g : DependencyGraph) : Call → Option Bool
  | .addNode _ => none
  | .addDependency a b r => some (g.addDependency a b r).1

/-- The operations that a call mentions, in the order in which it mentions them. -/
def operations : Call → List OperationId
  | .addNode o => [o]
  | .addDependency a b _ => [a, b]

/-- The pair that a call mentions, if there is one. -/
def pairs : Call → List (OperationId × OperationId)
  | .addNode _ => []
  | .addDependency a b _ => [(a, b)]

theorem mem_pairs {c : Call} {a b : OperationId} :
    (a, b) ∈ c.pairs ↔ ∃ r, c = .addDependency a b r := by
  cases c <;> simp [pairs, eq_comm]

end Call

namespace DependencyGraph

variable {g : DependencyGraph} {a b o : OperationId} {r : Reason} {c : Call}
  {calls calls' : List Call} {n : Nat}

/-- The graph behind a sequence of calls. -/
def after (g : DependencyGraph) (calls : List Call) : DependencyGraph := calls.foldl Call.run g

/-- What the calls of a sequence answer. -/
def answers (g : DependencyGraph) : List Call → List (Option Bool)
  | [] => []
  | c :: rest => c.answer g :: (c.run g).answers rest

theorem after_cons (g : DependencyGraph) (c : Call) (rest : List Call) :
    g.after (c :: rest) = (c.run g).after rest := rfl

theorem Arises.after (h : g.Arises) (calls : List Call) : (g.after calls).Arises :=
  List.foldlRecOn (motive := Arises) _ _ h fun _ h c _ => by
    cases c with
    | addNode o => exact h.addNode o
    | addDependency a b r => exact h.addDependency a b r

/-! ## Order -/

/-- New nodes are appended in the order of their first mention. -/
theorem nodes_after (g : DependencyGraph) (calls : List Call) :
    (g.after calls).nodes
      = g.nodes ++ ((calls.flatMap Call.operations).filter (· ∉ g.nodes)).eraseDups := by
  -- each call registers what it mentions, so all of them register what all of them mention
  have hrun : ∀ g c, (Call.run g c).nodes = c.operations.foldl register g.nodes := by
    intro g c
    cases c with
    | addNode o => exact nodes_addNode_eq
    | addDependency a b r => exact nodes_alterDependency_eq
  rw [after, foldl_register_mentioned nodes hrun, foldl_register]

theorem mem_nodes_after : o ∈ (g.after calls).nodes ↔
    o ∈ g.nodes ∨ ∃ c ∈ calls, o ∈ c.operations := by
  rw [nodes_after, List.mem_append, List.mem_eraseDups, List.mem_filter, List.mem_flatMap]
  by_cases ho : o ∈ g.nodes
  · simp [ho]
  · simp [ho]

/-- New pairs are appended in the order of the first calls on them. -/
theorem pairs_after (g : DependencyGraph) (calls : List Call) :
    (g.after calls).edges.map Edge.pair
      = g.edges.map Edge.pair
        ++ ((calls.flatMap Call.pairs).filter (· ∉ g.edges.map Edge.pair)).eraseDups := by
  have hrun : ∀ g c, (Call.run g c).edges.map Edge.pair
      = c.pairs.foldl register (g.edges.map Edge.pair) := by
    intro g c
    cases c with
    | addNode o => exact congrArg _ (edges_addNode g o)
    | addDependency a b r => exact pairs_alterDependency_eq
  rw [after, foldl_register_mentioned (fun g : DependencyGraph => g.edges.map Edge.pair) hrun,
    foldl_register]

theorem mem_pairs_after : (a, b) ∈ (g.after calls).edges.map Edge.pair ↔
    (a, b) ∈ g.edges.map Edge.pair ∨ ∃ r, .addDependency a b r ∈ calls := by
  have hcall : (a, b) ∈ calls.flatMap Call.pairs ↔ ∃ r, .addDependency a b r ∈ calls := by
    simp only [List.mem_flatMap, Call.mem_pairs]
    constructor
    · rintro ⟨_, hc, r, rfl⟩
      exact ⟨r, hc⟩
    · rintro ⟨r, hr⟩
      exact ⟨_, hr, r, rfl⟩
  rw [pairs_after, List.mem_append, List.mem_eraseDups, List.mem_filter, hcall]
  by_cases hold : (a, b) ∈ g.edges.map Edge.pair
  · simp [hold]
  · simp [hold]

/-- A call answers for the graph behind the calls before it. -/
theorem getElem?_answers (g : DependencyGraph) (calls : List Call) (n : Nat) :
    (g.answers calls)[n]? = calls[n]?.map (Call.answer (g.after (calls.take n))) := by
  induction calls generalizing g n with
  | nil => rfl
  | cons c rest ih =>
      cases n with
      | zero => rfl
      | succ n => exact ih (c.run g) n

/-- **A pair is new** if neither the graph nor a call before has it. -/
theorem answer_of_getElem? (h : calls[n]? = some (.addDependency a b r)) :
    ∃ new, (g.answers calls)[n]? = some (some new) ∧
      (new = true ↔
        (a, b) ∉ g.edges.map Edge.pair ∧ ∀ r', .addDependency a b r' ∉ calls.take n) := by
  refine ⟨_, by rw [getElem?_answers, h]; rfl, ?_⟩
  rw [addDependency, Option.isNone_iff_eq_none, edge?_eq_none_iff, mem_pairs_after, not_or,
    not_exists]

/-! ## Provenance -/

/-- A relation to which each call may add is, behind a sequence of calls, what it was before and
what one of the calls adds. -/
theorem after_iff (P : DependencyGraph → Prop) {Q : Call → Prop}
    (h : ∀ g c, P (Call.run g c) ↔ P g ∨ Q c) (g : DependencyGraph) (calls : List Call) :
    P (g.after calls) ↔ P g ∨ ∃ c ∈ calls, Q c := by
  induction calls generalizing g with
  | nil => simp [after]
  | cons c rest ih =>
      simp only [after_cons, ih, h, or_assoc, List.mem_cons, exists_eq_or_imp]

theorem cites_after :
    (g.after calls).Cites a b r ↔ g.Cites a b r ∨ .addDependency a b r ∈ calls := by
  have hrun : ∀ g c, (Call.run g c).Cites a b r ↔ g.Cites a b r ∨ c = .addDependency a b r := by
    intro g c
    cases c with
    | addNode o => simp [Call.run]
    | addDependency a' b' r' =>
        rw [Call.run, cites_addDependency, or_comm, Call.addDependency.injEq]
        simp only [eq_comm]
  rw [after_iff (fun g => g.Cites a b r) hrun]
  simp

/-- The type of a pair tells of data. -/
def TellsOfData (g : DependencyGraph) (a b : OperationId) : Prop :=
  ∃ p, g.edge? a b = some p ∧ p.type.includesData = true

/-- A call makes the type of its pair tell of data if its reason is a symbol. -/
theorem tellsOfData_addDependency {c d : OperationId} :
    (g.addDependency a b r).2.TellsOfData c d ↔
      g.TellsOfData c d ∨ ((a, b) = (c, d) ∧ ∃ symbol, .data symbol = r) := by
  simp only [TellsOfData, addDependency, edge?_alterDependency]
  by_cases hpair : (a, b) = (c, d)
  · obtain ⟨rfl, rfl⟩ : a = c ∧ b = d := by simpa using hpair
    cases hold : g.edge? a b with
    | none => simp [Provenance.ofReason]
    | some p => simp [Provenance.record]
  · simp [hpair]

theorem tellsOfData_after : (g.after calls).TellsOfData a b ↔
    g.TellsOfData a b ∨ ∃ symbol, .addDependency a b (.data symbol) ∈ calls := by
  have hrun : ∀ g c, (Call.run g c).TellsOfData a b ↔
      g.TellsOfData a b ∨ ∃ symbol, c = .addDependency a b (.data symbol) := by
    intro g c
    cases c with
    | addNode o => simp [Call.run, TellsOfData]
    | addDependency a' b' r' =>
        rw [Call.run, tellsOfData_addDependency]
        simp only [Call.addDependency.injEq, Prod.mk.injEq, and_assoc, exists_and_left, eq_comm]
  rw [after_iff (fun g => g.TellsOfData a b) hrun]
  constructor
  · rintro (hold | ⟨_, hc, symbol, rfl⟩)
    · exact Or.inl hold
    · exact Or.inr ⟨symbol, hc⟩
  · rintro (hold | ⟨symbol, hc⟩)
    · exact Or.inl hold
    · exact Or.inr ⟨_, hc, symbol, rfl⟩

/-- What is known of a pair behind calls: the rules and symbols that were known of it, and those of
the calls on it. -/
structure Gathers (g : DependencyGraph) (calls : List Call) (a b : OperationId) (p : Provenance) :
    Prop where
  sequencing : p.type.includesSequencing = true ↔
    (∃ q, g.edge? a b = some q ∧ q.type.includesSequencing = true) ∨
      .addDependency a b .sequencing ∈ calls
  data : p.type.includesData = true ↔
    (∃ q, g.edge? a b = some q ∧ q.type.includesData = true) ∨
      ∃ symbol, .addDependency a b (.data symbol) ∈ calls
  symbols : ∀ symbol, symbol ∈ p.symbols ↔
    (∃ q, g.edge? a b = some q ∧ symbol ∈ q.symbols) ∨
      .addDependency a b (.data symbol) ∈ calls

/-- **What is known behind calls** is gathered from the graph and the calls. -/
theorem gathers_of_edge? {p : Provenance} (h : (g.after calls).edge? a b = some p) :
    g.Gathers calls a b p := by
  have hcites : ∀ r, p.Cites r ↔ g.Cites a b r ∨ .addDependency a b r ∈ calls := by
    intro r
    rw [← cites_after, Cites, h]
    simp
  have hdata : p.type.includesData = true ↔
      g.TellsOfData a b ∨ ∃ symbol, .addDependency a b (.data symbol) ∈ calls := by
    rw [← tellsOfData_after, TellsOfData, h]
    simp
  exact ⟨hcites .sequencing, hdata, fun symbol => hcites (.data symbol)⟩

/-- Provenances gathered from the same calls are the same, in whatever order the calls were made. -/
theorem Gathers.unique {p q : Provenance} (hp : g.Gathers calls a b p) (hq : g.Gathers calls' a b q)
    (h : ∀ c, c ∈ calls ↔ c ∈ calls') : p = q := by
  refine Provenance.ext_of_parts ?_ ?_ fun symbol => ?_
  · rw [hp.sequencing, hq.sequencing, h]
  · simp only [hp.data, hq.data, h]
  · rw [hp.symbols, hq.symbols, h]

/-! ## Repeating and reordering calls -/

/-- What a call says is there already: its operation is registered, or its reason recorded. -/
def HasRecorded (g : DependencyGraph) : Call → Prop
  | .addNode o => o ∈ g.nodes
  | .addDependency a b r => ∃ p, g.edge? a b = some p ∧ p.HasRecorded r

theorem HasRecorded.run_eq (hg : g.WellFormed) (h : g.HasRecorded c) : c.run g = g := by
  cases c with
  | addNode o => exact addNode_of_mem h
  | addDependency a b r =>
      obtain ⟨p, hp, hrecorded⟩ := h
      exact hg.alterDependency_eq_self hp hrecorded.record_eq

/-- **Calls that say nothing new** change nothing. -/
theorem after_eq_self (hg : g.WellFormed) (h : ∀ c ∈ calls, g.HasRecorded c) :
    g.after calls = g := by
  induction calls with
  | nil => rfl
  | cons c rest ih =>
      rw [after_cons, (h c List.mem_cons_self).run_eq hg]
      exact ih fun c hc => h c (List.mem_cons_of_mem _ hc)

theorem hasRecorded_after (h : c ∈ calls) : (g.after calls).HasRecorded c := by
  cases c with
  | addNode o =>
      exact mem_nodes_after.mpr (Or.inr ⟨_, h, List.mem_singleton_self o⟩)
  | addDependency a b r =>
      have hpair : (a, b) ∈ (g.after calls).edges.map Edge.pair :=
        mem_pairs_after.mpr (Or.inr ⟨r, h⟩)
      obtain ⟨p, hp⟩ := Option.ne_none_iff_exists'.mp (mt edge?_eq_none_iff.mp (not_not.mpr hpair))
      have hgathers := gathers_of_edge? hp
      refine ⟨p, hp, ?_⟩
      cases r with
      | sequencing => exact hgathers.sequencing.mpr (Or.inr h)
      | data symbol =>
          exact ⟨hgathers.data.mpr (Or.inr ⟨symbol, h⟩), (hgathers.symbols symbol).mpr (Or.inr h)⟩

/-- **The order of calls** does not matter for what is known of a pair. -/
theorem edge?_after_of_perm (h : calls'.Perm calls) :
    (g.after calls').edge? a b = (g.after calls).edge? a b := by
  -- in either order the same pairs are mentioned, so both graphs have the pair or neither has
  have hnone : (g.after calls').edge? a b = none ↔ (g.after calls).edge? a b = none := by
    simp only [edge?_eq_none_iff, mem_pairs_after, h.mem_iff]
  cases hp : (g.after calls').edge? a b with
  | none => exact (hnone.mp hp).symm
  | some p =>
      obtain ⟨q, hq⟩ := Option.ne_none_iff_exists'.mp
        (mt hnone.mpr (by rw [hp]; exact Option.some_ne_none p))
      rw [hq, (gathers_of_edge? hp).unique (gathers_of_edge? hq) fun _ => h.mem_iff]

/-- **A graph that is grown by calls.**  The nodes are the old ones and then the operations that the
calls mention, each at its first mention, and the pairs likewise.  A call is told that its pair is
new exactly if it was neither there nor mentioned by an earlier call.  What is known of each pair is
gathered from the graph and the calls.  Hence calls that say what is recorded already change
nothing, whatever the calls said being recorded, and calls in another order make the same nodes and
the same provenance of each pair. -/
theorem grown_by_calls (hg : g.Arises) (calls : List Call) :
    (g.after calls).nodes
      = g.nodes ++ ((calls.flatMap Call.operations).filter (· ∉ g.nodes)).eraseDups ∧
    (g.after calls).edges.map Edge.pair
      = g.edges.map Edge.pair
        ++ ((calls.flatMap Call.pairs).filter (· ∉ g.edges.map Edge.pair)).eraseDups ∧
    (∀ n a b r, calls[n]? = some (.addDependency a b r) →
      ∃ new, (g.answers calls)[n]? = some (some new) ∧
        (new = true ↔
          (a, b) ∉ g.edges.map Edge.pair ∧ ∀ r', .addDependency a b r' ∉ calls.take n)) ∧
    (∀ a b p, (g.after calls).edge? a b = some p → g.Gathers calls a b p) ∧
    (∀ again, (∀ c ∈ again, (g.after calls).HasRecorded c) →
      (g.after calls).after again = g.after calls) ∧
    (∀ c ∈ calls, (g.after calls).HasRecorded c) ∧
    ∀ calls', calls'.Perm calls →
      (∀ o, o ∈ (g.after calls').nodes ↔ o ∈ (g.after calls).nodes) ∧
      ∀ a b, (g.after calls').edge? a b = (g.after calls).edge? a b := by
  refine ⟨nodes_after g calls, pairs_after g calls, fun n a b r h => answer_of_getElem? h,
    fun a b p h => gathers_of_edge? h, fun again h => ?_, fun c hc => hasRecorded_after hc,
    fun calls' h => ⟨fun o => ?_, fun a b => edge?_after_of_perm h⟩⟩
  · exact after_eq_self (hg.after calls).wellFormed h
  · simp only [mem_nodes_after, h.mem_iff]

/-- A record whose edges tell of symbols without data and of data without symbols. -/
def incoherent : GraphRecord :=
  ⟨"incoherent", [⟨5⟩], [⟨⟨1⟩, ⟨0⟩, .sequencing, [⟨4⟩]⟩, ⟨⟨2⟩, ⟨2⟩, .data, []⟩]⟩

/-- Calls on both edges of that record, on a new pair in both directions and on an operation that is
mentioned by then. -/
def mixedCalls : List Call :=
  [.addDependency ⟨2⟩ ⟨2⟩ .sequencing, .addDependency ⟨3⟩ ⟨1⟩ (.data ⟨7⟩), .addNode ⟨3⟩,
    .addDependency ⟨1⟩ ⟨3⟩ .sequencing, .addDependency ⟨1⟩ ⟨0⟩ (.data ⟨4⟩),
    .addDependency ⟨3⟩ ⟨1⟩ .sequencing]

theorem grown_by_calls_mixedCalls :
    (ofRecord incoherent).Arises ∧
      ((ofRecord incoherent).after mixedCalls).nodes = [⟨5⟩, ⟨1⟩, ⟨0⟩, ⟨2⟩, ⟨3⟩] ∧
      ((ofRecord incoherent).after mixedCalls).after mixedCalls.reverse
        = (ofRecord incoherent).after mixedCalls ∧
      ((ofRecord incoherent).after mixedCalls.reverse).edge? ⟨1⟩ ⟨0⟩
        = some ⟨.both, .ofList [⟨4⟩]⟩ := by
  have harises : (ofRecord incoherent).Arises := .loaded incoherent
  obtain ⟨hnodes, _, _, _, hagain, hrecorded, hperm⟩ := grown_by_calls harises mixedCalls
  refine ⟨harises, ?_, hagain _ fun c hc => hrecorded c (List.mem_reverse.mp hc), ?_⟩
  · rw [hnodes]
    decide
  · rw [(hperm _ (List.reverse_perm _)).2]
    decide

end DependencyGraph

end ProgramSlice
