import Mathlib.Data.Set.Card
import ProgramSlice.Proofs.Build.Order
import ProgramSlice.Proofs.Build.Trace
import ProgramSlice.Proofs.Graph.Coherence

/-!
# How many edges a built graph has

The two rules are counted apart.

* *Sequencing* gives each operation that another goes before in its block exactly one edge, whether
  or not the data rule hits the same pair.  So there are as many such edges as operations, less one
  for each block that has any (`BlockLayout.length_followers`).
* *Data* gives an operation one edge for each last writer of the symbols that it reads.  Several
  symbols may have one writer, so there are at most as many edges as symbols that are written by
  then (`card_writers_le`).

An edge by both rules counts for both of them, so all edges together are the two counts less those
that are counted twice.
-/

namespace ProgramSlice

/-! ## Operations behind others -/

namespace BlockLayout

variable {l : BlockLayout} {o : OperationId}

/-- The operations that another one goes before in their block. -/
def followers (l : BlockLayout) : List OperationId := l.blocks.flatMap (·.operations.tail)

/-- The number of blocks that have an operation. -/
def inhabitedCount (l : BlockLayout) : Nat := l.blocks.countP (!·.isEmpty)

/-- **Each block with operations has one that none goes before.** -/
theorem length_followers (l : BlockLayout) :
    l.followers.length + l.inhabitedCount = l.operations.length := by
  simp only [followers, inhabitedCount, operations]
  induction l.blocks with
  | nil => rfl
  | cons b rest ih =>
      have hblock : b.operations.tail.length + (if (!b.isEmpty) = true then 1 else 0)
          = b.operations.length := by
        rw [BasicBlock.isEmpty]
        cases b.operations <;> rfl
      simp only [List.flatMap_cons, List.length_append, List.countP_cons, ← ih, ← hblock]
      omega

/-- A follower stands at a place of a block that has one before it. -/
theorem mem_followers : o ∈ l.followers ↔ ∃ k i p, l.StandsAt k i p ∧ l.StandsAt k (i + 1) o := by
  constructor
  · intro ho
    obtain ⟨block, hblock, ho⟩ := List.mem_flatMap.mp ho
    obtain ⟨k, hk⟩ := List.mem_iff_getElem?.mp hblock
    obtain ⟨i, hi⟩ := List.mem_iff_getElem?.mp ho
    rw [List.getElem?_tail] at hi
    have hstands : l.StandsAt k (i + 1) o := ⟨block, hk, hi⟩
    obtain ⟨p, hp⟩ := hstands.exists_of_le (Nat.le_succ i)
    exact ⟨k, i, p, hp, hstands⟩
  · rintro ⟨k, i, -, -, block, hk, ho⟩
    refine List.mem_flatMap.mpr ⟨block, List.mem_of_getElem? hk, ?_⟩
    exact List.mem_of_getElem? (by rwa [List.getElem?_tail])

theorem nodup_followers (hl : l.operations.Nodup) : l.followers.Nodup := by
  refine List.Nodup.sublist ?_ hl
  rw [followers, operations]
  induction l.blocks with
  | nil => exact List.Sublist.refl _
  | cons b rest ih => exact (List.tail_sublist b.operations).append ih

/-- A list of the followers, each once, is as long as there are followers. -/
theorem length_eq_of_followers (hl : l.operations.Nodup) {listed : List OperationId}
    (hnodup : listed.Nodup) (hmem : ∀ o, o ∈ listed ↔ o ∈ l.followers) :
    listed.length = l.operations.length - l.inhabitedCount := by
  have hperm : listed.Perm l.followers :=
    (List.perm_ext_iff_of_nodup hnodup (nodup_followers hl)).mpr hmem
  rw [hperm.length_eq, ← l.length_followers, Nat.add_sub_cancel]

end BlockLayout

/-- No key of a map is listed twice. -/
theorem HandleMap.nodup_keys {κ ν : Type} [Handle κ] (m : HandleMap κ ν) :
    (m.toList.map Prod.fst).Nodup := by
  rw [List.Nodup, List.pairwise_map]
  refine m.ascending.imp ?_
  rintro p q hlt heq
  rw [heq] at hlt
  exact Nat.lt_irrefl _ hlt

/-- The ends of an edge tell it from the others. -/
theorem DependencyGraph.WellFormed.edge_ext {g : DependencyGraph} (h : g.WellFormed) {e e' : Edge}
    (he : e ∈ g.edges) (he' : e' ∈ g.edges) (hdependent : e.dependent = e'.dependent)
    (hdependency : e.dependency = e'.dependency) : e = e' :=
  List.inj_on_of_nodup_map h.pairs_nodup he he' (Prod.ext hdependent hdependency)

/-! ## Symbols that are read -/

namespace ProcedureBody

variable {s : BuildSettings} {body : ProcedureBody} {i : Nat} {symbol : SymbolId}
  {b : OperationId}

/-- The symbols that the operation at a position reads. -/
def symbolsRead (body : ProcedureBody) (i : Nat) : Finset SymbolId :=
  (body.readSequence i).toFinset

/-- The symbols that the operation at a position reads and that were written by then. -/
def symbolsKnown (body : ProcedureBody) (i : Nat) : Finset SymbolId :=
  (body.symbolsRead i).filter fun symbol => (body.writerBefore? (i + 1) symbol).isSome

theorem mem_symbolsRead : symbol ∈ body.symbolsRead i ↔ body.ReadsAt i symbol := by
  rw [symbolsRead, List.mem_toFinset, ReadsAt]
  cases h : body.operationAt i with
  | none => simp [readSequence, h]
  | some operation =>
      rw [readSequence_eq h, Operation.readSymbols, Action.mem_readSymbols]
      simp

theorem isSome_writerBefore?_iff :
    (body.writerBefore? (i + 1) symbol).isSome = true ↔ ∃ j ≤ i, body.WritesAt j symbol := by
  rw [Option.isSome_iff_exists]
  simp only [writerBefore?_eq_some_iff, lastWriteBefore_succ]
  constructor
  · rintro ⟨_, j, hlast, -⟩
    exact ⟨j, hlast.1.1, hlast.1.2⟩
  · rintro ⟨j, hj, hwrites⟩
    have hbounded : BddAbove {k | k ≤ i ∧ body.WritesAt k symbol} := ⟨i, fun k hk => hk.1⟩
    obtain ⟨m, hm⟩ := hbounded.exists_isGreatest_of_nonempty ⟨j, hj, hwrites⟩
    exact ⟨_, m, hm, List.getElem?_eq_getElem hm.1.2.lt_length⟩

/-- The symbols that an operation reads are known if they were written at its position or before. -/
theorem mem_symbolsKnown :
    symbol ∈ body.symbolsKnown i ↔ body.ReadsAt i symbol ∧ ∃ j ≤ i, body.WritesAt j symbol := by
  rw [symbolsKnown, Finset.mem_filter, mem_symbolsRead, isSome_writerBefore?_iff]

theorem card_symbolsKnown_le : (body.symbolsKnown i).card ≤ (body.symbolsRead i).card :=
  Finset.card_filter_le _ _

/-- The reads of a position lead to the operations that the data rule gives there. -/
theorem mem_writers : b ∈ body.writers s i ↔
    ∃ j symbol, body.layout.operations[j]? = some b ∧ body.Gives s i j (.data symbol) := by
  rw [writers]
  split
  · next hd =>
    simp only [List.mem_filterMap, writerBefore?_eq_some_iff, lastWriteBefore_succ]
    constructor
    · rintro ⟨symbol, hread, j, hlast, hj⟩
      have hreads := mem_symbolsRead.mp (List.mem_toFinset.mpr hread)
      exact ⟨j, symbol, hj, .data hd hreads hlast⟩
    · rintro ⟨j, symbol, hj, hgives⟩
      cases hgives with
      | data _ hread hlast =>
          exact ⟨symbol, List.mem_toFinset.mp (mem_symbolsRead.mpr hread), j, hlast, hj⟩
  · next hd =>
    refine iff_of_false List.not_mem_nil ?_
    rintro ⟨j, symbol, -, hgives⟩
    cases hgives with
    | data hd' => exact hd hd'

/-- **There are no more writers than known symbols.** -/
theorem card_writers_le : (body.writers s i).toFinset.card ≤ (body.symbolsKnown i).card := by
  have hsub : (body.writers s i).toFinset
      ⊆ (body.symbolsKnown i).image fun symbol =>
          (body.writerBefore? (i + 1) symbol).getD ⟨0⟩ := by
    intro b hb
    obtain ⟨j, symbol, hj, hgives⟩ := mem_writers.mp (List.mem_toFinset.mp hb)
    cases hgives with
    | data _ hread hlast =>
        have hknown : symbol ∈ body.symbolsKnown i := mem_symbolsKnown.mpr ⟨hread, j, hlast.1⟩
        have hwriter : body.writerBefore? (i + 1) symbol = some b :=
          writerBefore?_eq_some_iff.mpr ⟨j, lastWriteBefore_succ.mpr hlast, hj⟩
        exact Finset.mem_image.mpr ⟨symbol, hknown, by rw [hwriter]; rfl⟩
  exact (Finset.card_le_card hsub).trans Finset.card_image_le

/-- Both rules give a reason why the first operation of a pair depends on the second. -/
def GivesBoth (s : BuildSettings) (body : ProcedureBody) (p : OperationId × OperationId) : Prop :=
  ∃ i j : Nat, body.layout.operations[i]? = some p.1 ∧ body.layout.operations[j]? = some p.2 ∧
    body.Gives s i j .sequencing ∧ ∃ symbol, body.Gives s i j (.data symbol)

end ProcedureBody

/-! ## The edges -/

section Build

variable {s : BuildSettings} {body : ProcedureBody} {g : DependencyGraph} {t : BuildTrace}
  {i : Nat} {a o : OperationId}

/-- The trace binds each follower. -/
theorem size_previousInBlock (h : (buildWithTrace s body).result = .ok (g, t)) :
    t.previousInBlock.size = body.layout.operations.length - body.layout.inhabitedCount := by
  rw [HandleMap.size, ← List.length_map (f := Prod.fst)]
  refine BlockLayout.length_eq_of_followers (nodup_of_build (build_of_result h))
    t.previousInBlock.nodup_keys fun a => ?_
  have hbound : ∀ p, (a, p) ∈ t.previousInBlock.toList ↔
      ∃ k i, body.layout.StandsAt k i p ∧ body.layout.StandsAt k (i + 1) a := by
    intro p
    rw [HandleMap.mem_toList, (describes_of_build h).previousInBlock]
  rw [BlockLayout.mem_followers, List.mem_map]
  constructor
  · rintro ⟨⟨a, p⟩, hmem, rfl⟩
    obtain ⟨k, i, hp, ha⟩ := (hbound p).mp hmem
    exact ⟨k, i, p, hp, ha⟩
  · rintro ⟨k, i, p, hp, ha⟩
    exact ⟨(a, p), (hbound p).mpr ⟨k, i, hp, ha⟩, rfl⟩

section Edges

variable (h : build s body = .ok g)

include h

/-- An edge that the sequencing rule took part in leads to the place before. -/
theorem includesSequencing_iff {e : Edge} (he : e ∈ g.edges) :
    e.provenance.type.includesSequencing = true ↔ ∃ j, s.includeSequencing = true ∧
      body.layout.SameBlock (j + 1) j ∧ body.layout.operations[j + 1]? = some e.dependent ∧
      body.layout.operations[j]? = some e.dependency := by
  obtain ⟨i, j, hi, hj⟩ := exists_positions h he
  have hgives : e.provenance.type.includesSequencing = true ↔ body.Gives s i j .sequencing :=
    cites_of_mem_edges (r := .sequencing) h hi hj he
  rw [hgives]
  constructor
  · intro hgives
    cases hgives with
    | sequencing hs hblock => exact ⟨j, hs, hblock, hi, hj⟩
  · rintro ⟨j', hs, hblock, hi', hj'⟩
    obtain rfl := position_unique h hi hi'
    obtain rfl := position_unique h hj hj'
    exact .sequencing hs hblock

/-- With the sequencing rule each follower has one edge by it. -/
theorem countP_sequencing (hs : s.includeSequencing = true) :
    g.edges.countP (·.provenance.type.includesSequencing)
      = body.layout.operations.length - body.layout.inhabitedCount := by
  rw [List.countP_eq_length_filter, ← List.length_map (f := Edge.dependent)]
  refine BlockLayout.length_eq_of_followers (nodup_of_build h) ?_ fun a => ?_
  · refine List.Nodup.map_on ?_ ((wellFormed_of_build h).pairs_nodup.of_map.filter _)
    intro e he e' he' hdependent
    obtain ⟨he, hseq⟩ := List.mem_filter.mp he
    obtain ⟨he', hseq'⟩ := List.mem_filter.mp he'
    obtain ⟨j, -, -, hat, hbt⟩ := (includesSequencing_iff h he).mp hseq
    obtain ⟨j', -, -, hat', hbt'⟩ := (includesSequencing_iff h he').mp hseq'
    -- one operation has one operation before it
    rw [hdependent] at hat
    obtain rfl := Nat.succ.inj (position_unique h hat hat')
    have hdependency : e.dependency = e'.dependency := Option.some.inj (hbt.symm.trans hbt')
    exact (wellFormed_of_build h).edge_ext he he' hdependent hdependency
  · rw [BlockLayout.mem_followers, List.mem_map]
    constructor
    · rintro ⟨e, he, rfl⟩
      obtain ⟨he, hseq⟩ := List.mem_filter.mp he
      obtain ⟨j, -, hblock, hat, hbt⟩ := (includesSequencing_iff h he).mp hseq
      obtain ⟨k, i, ha, hb⟩ := BlockLayout.exists_sameBlock_succ_iff.mp ⟨j, hblock, hat, hbt⟩
      exact ⟨k, i, _, hb, ha⟩
    · rintro ⟨k, i, p, hp, ha⟩
      obtain ⟨j, hblock, hat, hbt⟩ := BlockLayout.exists_sameBlock_succ_iff.mpr ⟨k, i, ha, hp⟩
      obtain ⟨q, he⟩ := (exists_edge_iff h hat hbt).mpr ⟨.sequencing, .sequencing hs hblock⟩
      refine ⟨_, List.mem_filter.mpr ⟨he, ?_⟩, rfl⟩
      exact (includesSequencing_iff h he).mpr ⟨j, hs, hblock, hat, hbt⟩

/-- Without the sequencing rule there is no edge by it. -/
theorem countP_sequencing_of_off (hs : s.includeSequencing = false) :
    g.edges.countP (·.provenance.type.includesSequencing) = 0 := by
  rw [List.countP_eq_zero]
  intro e he hseq
  obtain ⟨j, hon, -⟩ := (includesSequencing_iff h he).mp hseq
  rw [hs] at hon
  cases hon

/-- The data rule took part in an edge if it gives a symbol between the two positions. -/
theorem includesData_iff {e : Edge} (he : e ∈ g.edges) {j : Nat}
    (hi : body.layout.operations[i]? = some e.dependent)
    (hj : body.layout.operations[j]? = some e.dependency) :
    e.provenance.type.includesData = true ↔ ∃ symbol, body.Gives s i j (.data symbol) := by
  have hcoherent : e.provenance.Coherent :=
    coherent_of_build h _ _ _ ((wellFormed_of_build h).mem_edges.mp he)
  rw [hcoherent.includesData_iff]
  exact exists_congr fun symbol => cites_of_mem_edges (r := .data symbol) h hi hj he

/-- An edge that the data rule took part in leads to a writer. -/
theorem dependency_mem_writers {e : Edge} (he : e ∈ g.edges)
    (hdata : e.provenance.type.includesData = true)
    (hi : body.layout.operations[i]? = some e.dependent) : e.dependency ∈ body.writers s i := by
  obtain ⟨-, j, -, hj⟩ := exists_positions h he
  obtain ⟨symbol, hgives⟩ := (includesData_iff h he hi hj).mp hdata
  exact ProcedureBody.mem_writers.mpr ⟨j, symbol, hj, hgives⟩

/-- The data rule gives a position no more edges than there are known symbols. -/
theorem countP_data_le :
    g.edges.countP (·.provenance.type.includesData)
      ≤ ∑ i ∈ Finset.range body.layout.operations.length, (body.symbolsKnown i).card := by
  have hnodup : (g.edges.filter (·.provenance.type.includesData)).Nodup :=
    (wellFormed_of_build h).pairs_nodup.of_map.filter _
  have hposition : ∀ e ∈ g.edges, body.layout.operations[
      body.layout.operations.idxOf e.dependent]? = some e.dependent := by
    intro e he
    obtain ⟨i, -, hi, -⟩ := exists_positions h he
    exact List.getElem?_idxOf (List.mem_of_getElem? hi)
  rw [List.countP_eq_length_filter, ← List.toFinset_card_of_nodup hnodup,
    Finset.card_eq_sum_card_fiberwise (f := fun e => body.layout.operations.idxOf e.dependent)
      (t := Finset.range body.layout.operations.length)]
  · refine Finset.sum_le_sum fun i _ => ?_
    have hwriters : (body.writers s i).toFinset.card ≤ (body.symbolsKnown i).card :=
      ProcedureBody.card_writers_le
    refine le_trans (Finset.card_le_card_of_injOn Edge.dependency ?_ ?_) hwriters
    · intro e hfiber
      obtain ⟨hmem, hi⟩ := Finset.mem_filter.mp hfiber
      obtain ⟨he, hdata⟩ := List.mem_filter.mp (List.mem_toFinset.mp hmem)
      have hat := hposition e he
      rw [hi] at hat
      exact List.mem_toFinset.mpr (dependency_mem_writers h he hdata hat)
    · intro e he e' he' hdependency
      obtain ⟨he, hi⟩ := Finset.mem_filter.mp he
      obtain ⟨he', hi'⟩ := Finset.mem_filter.mp he'
      obtain ⟨he, -⟩ := List.mem_filter.mp (List.mem_toFinset.mp he)
      obtain ⟨he', -⟩ := List.mem_filter.mp (List.mem_toFinset.mp he')
      have hdependent : e.dependent = e'.dependent := by
        have hat := hposition e he
        rw [hi, ← hi'] at hat
        exact Option.some.inj (hat.symm.trans (hposition e' he'))
      exact (wellFormed_of_build h).edge_ext he he' hdependent hdependency
  · intro e he
    obtain ⟨he, -⟩ := List.mem_filter.mp (List.mem_toFinset.mp he)
    exact Finset.mem_range.mpr (List.getElem?_eq_some_iff.mp (hposition e he)).1

/-- Without the data rule there is no edge by it. -/
theorem countP_data_of_off (hd : s.includeData = false) :
    g.edges.countP (·.provenance.type.includesData) = 0 := by
  rw [List.countP_eq_zero]
  intro e he hdata
  obtain ⟨i, j, hi, hj⟩ := exists_positions h he
  obtain ⟨symbol, hgives⟩ := (includesData_iff h he hi hj).mp hdata
  cases hgives with
  | data hon =>
      rw [hd] at hon
      cases hon

/-- An operation depends on one operation by its place in its block and on a writer for each symbol
that it reads. -/
theorem length_dependenciesOf_le (ho : body.layout.operations[i]? = some o) :
    (g.dependenciesOf o).length ≤ 1 + (body.symbolsRead i).card := by
  obtain ⟨v, -, htargets⟩ := exists_dependenciesOf_eq h ho
  have hnodup : (g.dependenciesOf o).Nodup := (wellFormed_of_build h).nodup_neighbours .backward o
  have hsub : (g.dependenciesOf o).toFinset
      ⊆ v.previous.toFinset ∪ (body.writers s i).toFinset := by
    intro b hb
    rw [List.mem_toFinset, htargets, ProcedureBody.targets, List.mem_eraseDups,
      List.mem_append] at hb
    rw [Finset.mem_union, Option.mem_toFinset, List.mem_toFinset]
    refine hb.imp_left fun hb => ?_
    split at hb
    · exact Option.mem_toList.mp hb
    · cases hb
  calc (g.dependenciesOf o).length = (g.dependenciesOf o).toFinset.card :=
        (List.toFinset_card_of_nodup hnodup).symm
    _ ≤ v.previous.toFinset.card + (body.writers s i).toFinset.card :=
        (Finset.card_le_card hsub).trans (Finset.card_union_le _ _)
    _ ≤ 1 + (body.symbolsRead i).card := by
        refine Nat.add_le_add ?_
          (ProcedureBody.card_writers_le.trans ProcedureBody.card_symbolsKnown_le)
        rw [Option.card_toFinset]
        cases v.previous <;> simp

/-- An edge is by both rules if both take part. -/
theorem type_eq_both_iff {e : Edge} (he : e ∈ g.edges) {j : Nat}
    (hi : body.layout.operations[i]? = some e.dependent)
    (hj : body.layout.operations[j]? = some e.dependency) :
    e.provenance.type = .both ↔
      body.Gives s i j .sequencing ∧ ∃ symbol, body.Gives s i j (.data symbol) := by
  have hsequencing : e.provenance.type.includesSequencing = true ↔ body.Gives s i j .sequencing :=
    cites_of_mem_edges (r := .sequencing) h hi hj he
  rw [← hsequencing, ← includesData_iff h he hi hj]
  cases e.provenance.type <;> decide

/-- **An edge by both rules is a pair that both give.** -/
theorem bothEdges_eq_ncard :
    g.census.bothEdges = {p | body.GivesBoth s p}.ncard := by
  have hset : {p | body.GivesBoth s p}
      = ((g.edges.filter (·.provenance.type = .both)).map Edge.pair).toFinset := by
    ext ⟨a, b⟩
    rw [Set.mem_ofPred_eq, Finset.mem_coe, List.mem_toFinset, List.mem_map]
    constructor
    · rintro ⟨i, j, ha, hb, hsequencing, hdata⟩
      obtain ⟨p, he⟩ := (exists_edge_iff h ha hb).mpr ⟨_, hsequencing⟩
      have htype := (type_eq_both_iff h he ha hb).mpr ⟨hsequencing, hdata⟩
      exact ⟨_, List.mem_filter.mpr ⟨he, decide_eq_true htype⟩, rfl⟩
    · rintro ⟨e, hmem, hpair⟩
      obtain ⟨he, htype⟩ := List.mem_filter.mp hmem
      obtain ⟨i, j, hi, hj⟩ := exists_positions h he
      cases hpair
      exact ⟨i, j, hi, hj, (type_eq_both_iff h he hi hj).mp (of_decide_eq_true htype)⟩
  have hnodup : ((g.edges.filter (·.provenance.type = .both)).map Edge.pair).Nodup :=
    (wellFormed_of_build h).pairs_nodup.sublist ((List.filter_sublist).map _)
  rw [hset, Set.ncard_coe_finset, List.toFinset_card_of_nodup hnodup, List.length_map,
    ← List.countP_eq_length_filter]
  rfl

/-- An operation that the layout does not list depends on nothing. -/
theorem dependenciesOf_eq_nil (ho : o ∉ body.layout.operations) : g.dependenciesOf o = [] := by
  rw [← nodes_of_build h] at ho
  refine List.eq_nil_iff_forall_not_mem.mpr fun b hb => ho ?_
  obtain ⟨p, he⟩ := DependencyGraph.mem_pairs_iff.mp (DependencyGraph.mem_dependenciesOf.mp hb)
  exact (wellFormed_of_build h).dependent_mem he

end Edges

/-- **How many edges a built graph has.**  With `N` operations listed and `B` blocks that have any,
the sequencing rule accounts for `N - B` edges, which are the operations whose predecessor the trace
binds, and for none if it is not applied.  The data rule accounts for at most as many as the
operations read symbols that are written by then, each operation's symbols counted once, and for
none if it is not applied.  An operation has at most one dependency more than it reads symbols.  The
edges are those of the two rules, of which the pairs that both give are counted twice. -/
theorem edges_tallied (h : (buildWithTrace s body).result = .ok (g, t)) :
    body.layout.inhabitedCount ≤ body.layout.operations.length ∧
    t.previousInBlock.size = body.layout.operations.length - body.layout.inhabitedCount ∧
    g.summary.sequencingEdges
      = (if s.includeSequencing then body.layout.operations.length - body.layout.inhabitedCount
        else 0) ∧
    g.summary.dataEdges
      ≤ (if s.includeData then
          ∑ i ∈ Finset.range body.layout.operations.length, (body.symbolsKnown i).card
        else 0) ∧
    (∀ i o, body.layout.operations[i]? = some o →
      (g.dependenciesOf o).length ≤ 1 + (body.symbolsRead i).card) ∧
    (∀ o, o ∉ body.layout.operations → g.dependenciesOf o = []) ∧
    g.edgeCount + {p | body.GivesBoth s p}.ncard
      = g.summary.sequencingEdges + g.summary.dataEdges ∧
    g.edgeCount ≤ body.layout.operations.length - body.layout.inhabitedCount
      + ∑ i ∈ Finset.range body.layout.operations.length, (body.symbolsKnown i).card := by
  have hbuild := build_of_result h
  have hsequencing : g.summary.sequencingEdges
      = if s.includeSequencing then body.layout.operations.length - body.layout.inhabitedCount
        else 0 := by
    rw [g.summary_sequencingEdges]
    split
    · next hs => exact countP_sequencing hbuild hs
    · next hs => exact countP_sequencing_of_off hbuild (Bool.eq_false_of_not_eq_true hs)
  have hdata : g.summary.dataEdges
      ≤ if s.includeData then
          ∑ i ∈ Finset.range body.layout.operations.length, (body.symbolsKnown i).card
        else 0 := by
    rw [g.summary_dataEdges]
    split
    · exact countP_data_le hbuild
    · next hd => exact (countP_data_of_off hbuild (Bool.eq_false_of_not_eq_true hd)).le
  have hboth : g.edgeCount + {p | body.GivesBoth s p}.ncard
      = g.summary.sequencingEdges + g.summary.dataEdges := by
    rw [g.sequencingEdges_add_dataEdges, bothEdges_eq_ncard hbuild]
  refine ⟨?_, size_previousInBlock h, hsequencing, hdata,
    fun i o => length_dependenciesOf_le hbuild, fun o => dependenciesOf_eq_nil hbuild, hboth, ?_⟩
  · rw [← body.layout.length_followers]
    exact Nat.le_add_left _ _
  · calc g.edgeCount ≤ g.summary.sequencingEdges + g.summary.dataEdges :=
          (Nat.le_add_right _ _).trans hboth.le
      _ ≤ _ := Nat.add_le_add (hsequencing.le.trans (by split <;> simp))
          (hdata.trans (by split <;> simp))

end Build

/-- One of the two pairs of neighbours is an edge by both rules, so six edges are left of seven. -/
theorem edges_tallied_sharedNumbers :
    ∃ g t, (buildWithTrace {} sharedNumbers).result = .ok (g, t) ∧
      t.previousInBlock.size = 2 ∧ g.summary.sequencingEdges = 2 ∧ g.summary.dataEdges ≤ 5 ∧
      (g.dependenciesOf ⟨3⟩).length ≤ 3 ∧ g.edgeCount + 1 = 7 ∧
      {p | sharedNumbers.GivesBoth {} p}.ncard = 1 := by
  have hcounts : ((buildWithTrace {} sharedNumbers).result.toOption.any fun found =>
      found.1.edgeCount = 6 ∧ found.1.summary.dataEdges = 5) = true := by decide +kernel
  obtain ⟨⟨g, t⟩, hresult, hcounts⟩ := exists_ok_of_any hcounts
  obtain ⟨hedges, hfive⟩ := of_decide_eq_true hcounts
  obtain ⟨-, hsize, hsequencing, hdata, hdependencies, -, hboth, -⟩ := edges_tallied hresult
  have htwo : g.summary.sequencingEdges = 2 := hsequencing.trans (by decide)
  refine ⟨g, t, hresult, hsize.trans (by decide), htwo, hdata.trans (by decide +kernel),
    (hdependencies 3 ⟨3⟩ rfl).trans (by decide), by rw [hedges], ?_⟩
  simp only at hedges hfive
  omega

end ProgramSlice
