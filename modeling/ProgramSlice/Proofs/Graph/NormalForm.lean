import Mathlib.Data.List.Dedup
import Mathlib.Data.List.Sort
import Mathlib.Tactic
import ProgramSlice.Proofs.Graph.Origin
import ProgramSlice.Proofs.Graph.Record
import ProgramSlice.Proofs.Graph.Registration

/-!
# The normal form of a record

A record may repeat itself and leave things out, and loading it settles what it says.  Three rules
take part: a node counts at its first place, where the ends of edges count as nodes mentioned after
the listed ones; a pair counts at its first place too, but with what its *last* edge states; and of
symbols only the set counts.  `GraphRecord.normalForm` applies these rules to the record itself,
without a graph, and writing out what was loaded gives exactly that.

Records that are in normal form already are the *canonical* ones.  Every graph that came about by
the operations on graphs is written as a canonical record, and a canonical record is what some
well-formed graph is written as (`GraphRecord.Canonical.exists_wellFormed`), which is why loading
and writing out gives it back.
-/

namespace ProgramSlice

open Handle

/-! ## The normal form -/

namespace EdgeRecord

/-- The two ends of a written edge, the dependent first. -/
def pair (e : EdgeRecord) : OperationId × OperationId := (e.dependent, e.dependency)

/-- The operations that a written edge mentions, in the order in which it mentions them. -/
def ends (e : EdgeRecord) : List OperationId := [e.dependent, e.dependency]

/-- The same edge with its symbols in ascending order, each once. -/
def tidy (e : EdgeRecord) : EdgeRecord :=
  { e with symbols := e.symbols.dedup.mergeSort fun s t => decide (number s ≤ number t) }

/-- The edge that a written edge states. -/
def toEdge (e : EdgeRecord) : Edge := ⟨e.dependent, e.dependency, e.provenance⟩

/-- Symbols that ascend are written as they were. -/
theorem toRecord_toEdge {e : EdgeRecord} (h : e.symbols.Pairwise Before) :
    e.toEdge.toRecord = e := by
  show (⟨e.dependent, e.dependency, e.type, (HandleSet.ofList e.symbols).toList⟩ : EdgeRecord) = e
  rw [HandleSet.toList_ofList h]

end EdgeRecord

namespace GraphRecord

/-- The last edge that a record has between two operations. -/
def lastEdge? (r : GraphRecord) (p : OperationId × OperationId) : Option EdgeRecord :=
  (r.edges.filter (·.pair = p)).getLast?

/-- **The normal form** of a record.  Its nodes are the operations that the record mentions, first
in its nodes and then in its edges, each at its first place.  It has one edge for each pair, at the
first place of the pair and with the type and the symbols of the last. -/
def normalForm (r : GraphRecord) : GraphRecord where
  functionId := r.functionId
  nodes := (r.nodes ++ r.edges.flatMap EdgeRecord.ends).eraseDups
  edges := (((r.edges.map EdgeRecord.pair).eraseDups).filterMap r.lastEdge?).map EdgeRecord.tidy

/-- A record says everything once and nothing implicitly: no node and no pair is listed twice, the
ends of every edge are listed, and symbols stand in ascending order. -/
structure Canonical (r : GraphRecord) : Prop where
  nodes_nodup : r.nodes.Nodup
  ends_listed : ∀ e ∈ r.edges, e.dependent ∈ r.nodes ∧ e.dependency ∈ r.nodes
  pairs_nodup : (r.edges.map EdgeRecord.pair).Nodup
  symbols_ascending : ∀ e ∈ r.edges, e.symbols.Pairwise Before

end GraphRecord

/-! ## Loading, view by view -/

/-- The members of a set are listed as one lists them by sorting. -/
theorem HandleSet.toList_ofList_eq_mergeSort {α : Type} [Handle α] [DecidableEq α] (l : List α) :
    (HandleSet.ofList l).toList
      = l.dedup.mergeSort fun a b => decide (number a ≤ number b) := by
  have hperm : (l.dedup.mergeSort fun a b => decide (number a ≤ number b)).Perm l.dedup :=
    List.mergeSort_perm _ _
  have hsorted : (l.dedup.mergeSort fun a b => decide (number a ≤ number b)).Pairwise
      fun a b => number a ≤ number b := by
    have htrans : ∀ a b c : α, decide (number a ≤ number b) = true →
        decide (number b ≤ number c) = true → decide (number a ≤ number c) = true := by
      intro a b c hab hbc
      rw [decide_eq_true_eq] at hab hbc ⊢
      exact hab.trans hbc
    have htotal : ∀ a b : α,
        (decide (number a ≤ number b) || decide (number b ≤ number a)) = true := by
      intro a b
      simpa using Nat.le_total (number a) (number b)
    simpa only [decide_eq_true_eq] using List.pairwise_mergeSort htrans htotal l.dedup
  refine HandleSet.eq_of_ascending (HandleSet.ofList l).ascending ?_ fun x => ?_
  · -- the sorted list repeats nothing, so it ascends strictly
    refine (hsorted.and (hperm.nodup_iff.mpr l.nodup_dedup)).imp ?_
    rintro a b ⟨hle, hne⟩
    exact Nat.lt_of_le_of_ne hle fun heq => hne (number_injective heq)
  · rw [← HandleSet.mem_def, HandleSet.mem_ofList, hperm.mem_iff, List.mem_dedup]

namespace DependencyGraph

variable {g : DependencyGraph} {a b : OperationId}

theorem edges_foldl_addNode (nodes : List OperationId) (g : DependencyGraph) :
    (nodes.foldl addNode g).edges = g.edges := foldl_keeps edges edges_addNode g nodes

theorem functionId_ofRecord (r : GraphRecord) : (ofRecord r).functionId = r.functionId := by
  have hload : ∀ (g : DependencyGraph) (e : EdgeRecord), (g.loadEdge e).functionId = g.functionId :=
    fun _ _ => functionId_alterDependency
  rw [ofRecord, foldl_keeps functionId hload, foldl_keeps functionId functionId_addNode]

/-- Loading registers the listed nodes and then the ends of the edges. -/
theorem nodes_ofRecord (r : GraphRecord) :
    (ofRecord r).nodes = (r.nodes ++ r.edges.flatMap EdgeRecord.ends).eraseDups := by
  have hnode : ∀ (g : DependencyGraph) (o : OperationId),
      (g.addNode o).nodes = [o].foldl register g.nodes := fun _ _ => nodes_addNode_eq
  have hedge : ∀ (g : DependencyGraph) (e : EdgeRecord),
      (g.loadEdge e).nodes = e.ends.foldl register g.nodes := fun _ _ => nodes_alterDependency_eq
  rw [ofRecord, foldl_register_mentioned nodes hedge, foldl_register_mentioned nodes hnode,
    ← List.foldl_append, List.flatMap_singleton', foldl_register]
  simp

/-- Loading registers the pairs of the edges. -/
theorem pairs_ofRecord (r : GraphRecord) :
    (ofRecord r).edges.map Edge.pair = (r.edges.map EdgeRecord.pair).eraseDups := by
  have hedge : ∀ (g : DependencyGraph) (e : EdgeRecord), (g.loadEdge e).edges.map Edge.pair
      = [e.pair].foldl register (g.edges.map Edge.pair) := fun _ _ => pairs_alterDependency_eq
  rw [ofRecord, foldl_register_mentioned (fun g : DependencyGraph => g.edges.map Edge.pair) hedge,
    edges_foldl_addNode, foldl_register, ← List.map_eq_flatMap]
  simp

/-- What is known of a pair after loading is what the last edge of the pair states. -/
theorem edge?_ofRecord (r : GraphRecord) (a b : OperationId) :
    (ofRecord r).edge? a b = (r.lastEdge? (a, b)).map EdgeRecord.provenance := by
  rw [ofRecord, GraphRecord.lastEdge?]
  induction r.edges using List.reverseRecOn with
  | nil => simp [edge?, edges_foldl_addNode]
  | append_singleton edges e ih =>
      have hload : ∀ g : DependencyGraph, (g.loadEdge e).edge? a b
          = if e.pair = (a, b) then some e.provenance else g.edge? a b := by
        intro g
        rw [loadEdge, setProvenance, edge?_alterDependency]
        cases g.edge? e.dependent e.dependency <;> rfl
      rw [List.foldl_append, List.foldl_cons, List.foldl_nil, hload, ih, List.filter_append]
      by_cases he : e.pair = (a, b)
      · rw [if_pos he, List.filter_cons_of_pos (by simpa using he)]
        simp
      · rw [if_neg he, List.filter_cons_of_neg (by simpa using he)]
        simp

/-- The edges of a well-formed graph are its pairs, each with what is known of it. -/
theorem WellFormed.edges_eq_filterMap (h : g.WellFormed) :
    g.edges = (g.edges.map Edge.pair).filterMap fun p => (g.edge? p.1 p.2).map (⟨p.1, p.2, ·⟩) := by
  have hknown : ∀ e ∈ g.edges,
      (g.edge? e.dependent e.dependency).map (⟨e.dependent, e.dependency, ·⟩) = some e := by
    intro e he
    rw [h.mem_edges.mp he, Option.map_some]
  rw [List.filterMap_map]
  conv_lhs => rw [← List.filterMap_some (l := g.edges)]
  exact List.filterMap_congr fun e he => (hknown e he).symm

/-- **What was loaded is written in normal form.** -/
theorem toRecord_ofRecord (r : GraphRecord) : (ofRecord r).toRecord = r.normalForm := by
  have hedges : (ofRecord r).edges.map Edge.toRecord = r.normalForm.edges := by
    rw [(WellFormed.ofRecord r).edges_eq_filterMap, pairs_ofRecord, GraphRecord.normalForm,
      List.map_filterMap, List.map_filterMap]
    refine List.filterMap_congr fun p _ => ?_
    rw [edge?_ofRecord]
    cases hlast : r.lastEdge? p with
    | none => rfl
    | some e =>
        -- the last edge of a pair has the ends of the pair
        have hpair : e.pair = p := by
          simpa using (List.mem_filter.mp (List.mem_of_getLast? hlast)).2
        subst hpair
        rw [Option.map_some, Option.map_some, Option.map_some, Option.map_some, Edge.toRecord,
          EdgeRecord.provenance, HandleSet.toList_ofList_eq_mergeSort]
        rfl
  rw [toRecord, functionId_ofRecord, nodes_ofRecord, hedges]
  rfl

/-! ## Canonical records -/

/-- A well-formed graph is written as a canonical record. -/
theorem WellFormed.canonical_toRecord (h : g.WellFormed) : g.toRecord.Canonical where
  nodes_nodup := h.nodes_nodup
  ends_listed := by
    intro _ hrecord
    obtain ⟨e, he, rfl⟩ := List.mem_map.mp hrecord
    exact ⟨h.dependent_mem he, h.dependency_mem he⟩
  pairs_nodup := by
    have hpairs : g.toRecord.edges.map EdgeRecord.pair = g.edges.map Edge.pair := by
      rw [toRecord, List.map_map]
      rfl
    rw [hpairs]
    exact h.pairs_nodup
  symbols_ascending := by
    intro _ hrecord
    obtain ⟨e, he, rfl⟩ := List.mem_map.mp hrecord
    exact e.provenance.symbols.ascending

end DependencyGraph

namespace GraphRecord

open DependencyGraph

variable {r : GraphRecord}

/-- **A canonical record is what a well-formed graph is written as.** -/
theorem Canonical.exists_wellFormed (h : r.Canonical) :
    ∃ g : DependencyGraph, g.WellFormed ∧ g.toRecord = r := by
  have hpairs : (r.edges.map EdgeRecord.toEdge).map Edge.pair = r.edges.map EdgeRecord.pair := by
    rw [List.map_map]
    rfl
  have hwritten : (r.edges.map EdgeRecord.toEdge).map Edge.toRecord = r.edges := by
    rw [List.map_map]
    exact (List.map_congr_left fun e he =>
      EdgeRecord.toRecord_toEdge (h.symbols_ascending e he)).trans (List.map_id _)
  refine ⟨⟨r.functionId, r.nodes, r.edges.map EdgeRecord.toEdge⟩, ⟨h.nodes_nodup, ?_, ?_⟩, ?_⟩
  · rw [hpairs]
    exact h.pairs_nodup
  · rw [hpairs]
    intro p hp
    obtain ⟨e, he, rfl⟩ := List.mem_map.mp hp
    exact h.ends_listed e he
  · rw [toRecord, hwritten]

/-- **The canonical records are those in normal form.** -/
theorem normalForm_eq_self_iff : r.normalForm = r ↔ r.Canonical := by
  constructor
  · intro hnormal
    rw [← hnormal, ← toRecord_ofRecord]
    exact (WellFormed.ofRecord r).canonical_toRecord
  · intro h
    obtain ⟨g, hg, rfl⟩ := h.exists_wellFormed
    rw [← toRecord_ofRecord, hg.ofRecord_toRecord]

end GraphRecord

namespace DependencyGraph

/-- **Loading and writing out.**  A record that is loaded and written out comes back in normal form,
and comes back as it was exactly if it is canonical.  What any graph is written as is canonical,
however the graph came about, so loading it gives it back. -/
theorem written_in_normalForm (r : GraphRecord) :
    (ofRecord r).toRecord = r.normalForm ∧ (r.normalForm = r ↔ r.Canonical) ∧
      ∀ g : DependencyGraph, g.Arises →
        g.toRecord.Canonical ∧ (ofRecord g.toRecord).toRecord = g.toRecord := by
  refine ⟨toRecord_ofRecord r, GraphRecord.normalForm_eq_self_iff, fun g hg => ⟨?_, ?_⟩⟩
  · exact hg.wellFormed.canonical_toRecord
  · rw [hg.wellFormed.ofRecord_toRecord]

/-- A record that lists a node twice and leaves the end of an edge out, with two edges for one pair
around an edge from an operation to itself.  The symbols of the later one of the two are out of
order, and one of them is repeated. -/
def untidy : GraphRecord :=
  ⟨"untidy", [⟨4⟩, ⟨1⟩, ⟨4⟩], [⟨⟨4⟩, ⟨1⟩, .sequencing, [⟨9⟩]⟩, ⟨⟨7⟩, ⟨7⟩, .both, []⟩,
    ⟨⟨4⟩, ⟨1⟩, .data, [⟨3⟩, ⟨0⟩, ⟨3⟩]⟩]⟩

theorem written_in_normalForm_untidy :
    untidy.normalForm = ⟨"untidy", [⟨4⟩, ⟨1⟩, ⟨7⟩],
      [⟨⟨4⟩, ⟨1⟩, .data, [⟨0⟩, ⟨3⟩]⟩, ⟨⟨7⟩, ⟨7⟩, .both, []⟩]⟩ ∧
    (ofRecord untidy).Arises ∧ (ofRecord untidy).toRecord.Canonical := by
  have harises : (ofRecord untidy).Arises := .loaded untidy
  obtain ⟨hwritten, _, hcanonical⟩ := written_in_normalForm untidy
  refine ⟨?_, harises, (hcanonical _ harises).1⟩
  rw [← hwritten]
  decide

end DependencyGraph

end ProgramSlice
