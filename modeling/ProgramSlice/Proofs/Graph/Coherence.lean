import Mathlib.Tactic
import ProgramSlice.Proofs.Graph.NormalForm
import ProgramSlice.Proofs.Graph.Reachability
import ProgramSlice.Proofs.Graph.Views

/-!
# Types and symbols go together

What is known of a pair is a type and a set of symbols, and the two are kept by separate rules: a
type is merged, a set is inserted into, and a record states both as it likes.  A record may
therefore tell of data without a symbol, or list symbols where its type does not tell of data.

Apart from such records the two never contradict each other.  `ArisesCoherently` are the graphs that
come about without one, by any growing, writing out and loading again, and they are coherent
(`ArisesCoherently.coherent`).  In a coherent graph the symbols can stand in for the types: what is
counted as data is what carries a symbol, and a thin slice follows the edges that carry one.
-/

namespace ProgramSlice

theorem HandleSet.isEmpty_eq_false_iff {α : Type} [Handle α] {s : HandleSet α} :
    s.isEmpty = false ↔ ∃ a, a ∈ s :=
  List.isEmpty_eq_false_iff_exists_mem

/-- An edge carries a symbol. -/
def Edge.CarriesSymbol (e : Edge) : Prop := e.provenance.symbols.isEmpty = false

instance (e : Edge) : Decidable e.CarriesSymbol :=
  inferInstanceAs (Decidable (e.provenance.symbols.isEmpty = false))

/-- A written edge lists symbols exactly if its type tells of data. -/
def EdgeRecord.Coherent (e : EdgeRecord) : Prop :=
  e.symbols.isEmpty = false ↔ e.type.includesData = true

instance (e : EdgeRecord) : Decidable e.Coherent :=
  inferInstanceAs (Decidable (_ ↔ _))

theorem EdgeRecord.Coherent.provenance {e : EdgeRecord} (h : e.Coherent) :
    e.provenance.Coherent := by
  show e.type.includesData = true ↔ ∃ symbol, symbol ∈ HandleSet.ofList e.symbols
  simp only [HandleSet.mem_ofList, ← List.isEmpty_eq_false_iff_exists_mem]
  exact h.symm

namespace DependencyGraph

variable {g : DependencyGraph} {o n : OperationId} {k : Nat}

/-- A graph came about without a record that contradicts itself: it was begun empty, built from a
body or loaded from a record of coherent edges, and then grown, renamed, or written out and loaded
again. -/
inductive ArisesCoherently : DependencyGraph → Prop
  | empty (functionId : String) : ArisesCoherently { functionId }
  | built {s : BuildSettings} {body : ProcedureBody} {g : DependencyGraph}
      (h : build s body = .ok g) : ArisesCoherently g
  | loaded {r : GraphRecord} (h : ∀ e ∈ r.edges, e.Coherent) : ArisesCoherently (ofRecord r)
  | addNode {g : DependencyGraph} (h : ArisesCoherently g) (o : OperationId) :
      ArisesCoherently (g.addNode o)
  | addDependency {g : DependencyGraph} (h : ArisesCoherently g) (a b : OperationId) (r : Reason) :
      ArisesCoherently (g.addDependency a b r).2
  | rename {g : DependencyGraph} (h : ArisesCoherently g) (functionId : String) :
      ArisesCoherently (g.rename functionId)
  | reloaded {g : DependencyGraph} (h : ArisesCoherently g) :
      ArisesCoherently (ofRecord g.toRecord)

theorem ArisesCoherently.arises (h : g.ArisesCoherently) : g.Arises := by
  induction h with
  | empty functionId => exact .empty functionId
  | built h => exact .built h
  | loaded _ => exact .loaded _
  | addNode _ o ih => exact ih.addNode o
  | addDependency _ a b r ih => exact ih.addDependency a b r
  | rename _ functionId ih => exact ih.rename functionId
  | reloaded _ _ => exact .loaded _

/-- A record of coherent edges is loaded into a coherent graph, whichever edge of a pair counts. -/
theorem Coherent.ofRecord {r : GraphRecord} (h : ∀ e ∈ r.edges, e.Coherent) :
    (DependencyGraph.ofRecord r).Coherent := by
  intro a b p hp
  rw [edge?_ofRecord] at hp
  obtain ⟨e, hlast, rfl⟩ := Option.map_eq_some_iff.mp hp
  have he : e ∈ r.edges := (List.mem_filter.mp (List.mem_of_getLast? hlast)).1
  exact (h e he).provenance

/-- **Graphs that come about without a contradicting record are coherent.** -/
theorem ArisesCoherently.coherent (h : g.ArisesCoherently) : g.Coherent := by
  induction h with
  | empty functionId => exact .empty functionId
  | built h => exact coherent_of_build h
  | loaded h => exact .ofRecord h
  | addNode _ o ih => exact ih.addNode o
  | addDependency _ a b r ih => exact ih.addDependency a b r
  | rename _ functionId ih => exact ih
  | reloaded h ih =>
      -- what is loaded from the record of a graph is the graph
      rw [h.arises.wellFormed.ofRecord_toRecord]
      exact ih

/-- In a coherent graph an edge carries a symbol exactly if its type tells of data. -/
theorem Coherent.carriesSymbol_iff (hg : g.WellFormed) (h : g.Coherent) {e : Edge}
    (he : e ∈ g.edges) : e.CarriesSymbol ↔ e.provenance.type.includesData = true := by
  have hp : e.provenance.Coherent := h _ _ _ (hg.mem_edges.mp he)
  exact HandleSet.isEmpty_eq_false_iff.trans hp.symm

/-! ## What is counted -/

/-- The edges of one type and those of both are the edges of either. -/
theorem countType_add_both (g : DependencyGraph) {t : DependencyType} (ht : t ≠ .both) :
    g.countType t + g.countType .both
      = g.edges.countP fun e => e.provenance.type = t ∨ e.provenance.type = .both := by
  simp only [countType]
  induction g.edges with
  | nil => rfl
  | cons e rest ih =>
      simp only [List.countP_cons, ← ih]
      by_cases hboth : e.provenance.type = .both
      · simp [hboth, ht.symm]
        omega
      · simp [hboth]
        omega

/-- A summary counts as data what the data rule took part in. -/
theorem summary_dataEdges (g : DependencyGraph) :
    g.summary.dataEdges = g.edges.countP (·.provenance.type.includesData) := by
  refine (g.countType_add_both (by decide)).trans (List.countP_congr fun e _ => ?_)
  cases e.provenance.type <;> simp [DependencyType.includesData]

/-- A summary counts as sequencing what the sequencing rule took part in. -/
theorem summary_sequencingEdges (g : DependencyGraph) :
    g.summary.sequencingEdges = g.edges.countP (·.provenance.type.includesSequencing) := by
  refine (g.countType_add_both (by decide)).trans (List.countP_congr fun e _ => ?_)
  cases e.provenance.type <;> simp [DependencyType.includesSequencing]

/-- In a summary an edge by both rules counts twice. -/
theorem sequencingEdges_add_dataEdges (g : DependencyGraph) :
    g.summary.sequencingEdges + g.summary.dataEdges = g.edgeCount + g.census.bothEdges := by
  have hsum := g.sum_census
  show g.census.sequencingEdges + g.census.bothEdges
      + (g.census.dataEdges + g.census.bothEdges) = g.edgeCount + g.census.bothEdges
  omega

/-! ## What a thin slice follows -/

/-- A path of dependencies each of which carries a symbol, with its length. -/
inductive SymbolPath (g : DependencyGraph) : Nat → OperationId → OperationId → Prop
  | nil (o : OperationId) : SymbolPath g 0 o o
  | snoc {k : Nat} {o : OperationId} {e : Edge} (h : SymbolPath g k o e.dependent)
      (he : e ∈ g.edges) (hsymbol : e.CarriesSymbol) : SymbolPath g (k + 1) o e.dependency

/-- In a coherent graph the paths by the data rule are those along symbols. -/
theorem Coherent.path_iff_symbolPath (hg : g.WellFormed) (h : g.Coherent) :
    g.Path .backward RuleFilter.dataOnly k o n ↔ g.SymbolPath k o n := by
  constructor
  · intro hpath
    induction hpath with
    | nil => exact .nil _
    | snoc _ he hrule ih =>
        rcases hrule with ⟨hoff, _⟩ | ⟨_, hdata⟩
        · cases hoff
        · exact .snoc ih he ((h.carriesSymbol_iff hg he).mpr hdata)
  · intro hpath
    induction hpath with
    | nil => exact .nil _
    | snoc _ he hsymbol ih =>
        have hdata := (h.carriesSymbol_iff hg he).mp hsymbol
        exact .snoc (d := .backward) ih he (Or.inr ⟨rfl, hdata⟩)

/-- **Types and symbols never contradict each other** in a graph that came about without a record
that contradicts itself.  An edge carries a symbol exactly if its type tells of data.  So a summary
counts as data the edges that carry a symbol; it counts those by both rules twice; and a thin slice
of a node holds what paths along symbols reach within the limit. -/
theorem types_match_symbols (h : g.ArisesCoherently) :
    (∀ e ∈ g.edges, e.provenance.symbols.isEmpty = false ↔
      e.provenance.type.includesData = true) ∧
    g.summary.dataEdges = (g.edges.filter fun e => !e.provenance.symbols.isEmpty).length ∧
    g.summary.sequencingEdges + g.summary.dataEdges = g.edgeCount + g.census.bothEdges ∧
    ∀ (o n : OperationId) (limit : Option Nat), n ∈ g.thinSlice o limit ↔
      o ∈ g.nodes ∧ ∃ k, (∀ m ∈ limit, k ≤ m) ∧ g.SymbolPath k o n := by
  have hg := h.arises.wellFormed
  have hcarries : ∀ e ∈ g.edges, e.CarriesSymbol ↔ e.provenance.type.includesData = true := by
    intro e he
    exact h.coherent.carriesSymbol_iff hg he
  refine ⟨hcarries, ?_, g.sequencingEdges_add_dataEdges, ?_⟩
  · rw [g.summary_dataEdges, ← List.countP_eq_length_filter]
    refine List.countP_congr fun e he => ?_
    rw [← hcarries e he, Bool.not_eq_true']
    rfl
  · intro o n limit
    simp only [← h.coherent.path_iff_symbolPath hg]
    exact mem_slice

/-- A record that states a pair twice, the second time without the symbol of the first. -/
def restated : GraphRecord :=
  ⟨"restated", [], [⟨⟨0⟩, ⟨1⟩, .data, [⟨3⟩]⟩, ⟨⟨2⟩, ⟨0⟩, .sequencing, []⟩,
    ⟨⟨0⟩, ⟨1⟩, .sequencing, []⟩]⟩

/-- The restated pair gains another symbol, and the graph is written out and loaded again. -/
def regained : DependencyGraph :=
  ofRecord ((ofRecord restated).addDependency ⟨0⟩ ⟨1⟩ (.data ⟨5⟩)).2.toRecord

theorem types_match_symbols_regained :
    regained.ArisesCoherently ∧ regained.summary.dataEdges = 1 ∧
      regained.summary.sequencingEdges + 1 = 3 ∧ ⟨1⟩ ∈ regained.thinSlice ⟨0⟩ (some 1) := by
  have harises : regained.ArisesCoherently :=
    .reloaded (.addDependency (.loaded (by decide)) _ _ _)
  obtain ⟨-, hdata, hsum, hslice⟩ := types_match_symbols harises
  have hdata' : regained.summary.dataEdges = 1 := hdata.trans (by decide)
  have hpath : regained.SymbolPath 1 ⟨0⟩ ⟨1⟩ :=
    .snoc (e := ⟨⟨0⟩, ⟨1⟩, ⟨.both, .ofList [⟨5⟩]⟩⟩) (.nil ⟨0⟩) (by decide) (by decide)
  rw [hdata'] at hsum
  exact ⟨harises, hdata', hsum.trans (by decide), (hslice _ _ _).mpr ⟨by decide, 1, by simp, hpath⟩⟩

end DependencyGraph

end ProgramSlice
