import ProgramSlice.Proofs.Graph.Growth

/-!
# A graph as the reasons it cites

The provenance of a pair is a type and a set of symbols, but what one wants to know of it is which
reasons it gathers: `Provenance.Cites`.  In this view recording is adding one reason
(`Provenance.cites_record`), and a graph is a relation between pairs and reasons to which each
call of `addDependency` adds one instance (`DependencyGraph.cites_addDependency`).

A type that tells of data without a symbol, or the other way round, does not come from reasons.
Provenances that were recorded reason by reason are *coherent*, and a coherent provenance cites at
least one reason, so that an edge is there exactly when some reason for it is cited.
-/

namespace ProgramSlice

/-! ## The reasons of one pair -/

namespace Provenance

variable {p : Provenance} {r r' : Reason}

/-- A reason is among those that a provenance gathers. -/
def Cites (p : Provenance) : Reason → Prop
  | .sequencing => p.type.includesSequencing = true
  | .data symbol => symbol ∈ p.symbols

/-- The type tells of data exactly when there is a symbol. -/
def Coherent (p : Provenance) : Prop := p.type.includesData = true ↔ ∃ symbol, symbol ∈ p.symbols

@[simp] theorem includesSequencing_type :
    r.type.includesSequencing = true ↔ .sequencing = r := by
  cases r <;> simp [Reason.type, DependencyType.includesSequencing]

@[simp] theorem includesData_type : r.type.includesData = true ↔ ∃ symbol, .data symbol = r := by
  cases r <;> simp [Reason.type, DependencyType.includesData]

@[simp] theorem mem_addSymbol {symbols : HandleSet SymbolId} {symbol : SymbolId} :
    symbol ∈ addSymbol symbols r ↔ .data symbol = r ∨ symbol ∈ symbols := by
  cases r <;> simp [addSymbol]

@[simp] theorem cites_ofReason : (ofReason r).Cites r' ↔ r' = r := by
  cases r' <;> simp [Cites, ofReason]

/-- **Recording adds one reason.** -/
@[simp] theorem cites_record : (p.record r).Cites r' ↔ r' = r ∨ p.Cites r' := by
  cases r' <;> simp [Cites, record, or_comm]

theorem Coherent.ofReason (r : Reason) : (ofReason r).Coherent := by
  simp [Coherent, Provenance.ofReason]

theorem Coherent.record (h : p.Coherent) (r : Reason) : (p.record r).Coherent := by
  have hor : p.type.includesData = true ∨ (∃ symbol, .data symbol = r)
      ↔ (∃ symbol, .data symbol = r) ∨ ∃ symbol, symbol ∈ p.symbols :=
    or_comm.trans (or_congr_right h)
  simpa [Coherent, Provenance.record, exists_or] using hor

theorem Coherent.includesData_iff (h : p.Coherent) :
    p.type.includesData = true ↔ ∃ symbol, p.Cites (.data symbol) := h

/-- A coherent provenance is there for a reason. -/
theorem Coherent.exists_cites (h : p.Coherent) : ∃ r, p.Cites r := by
  by_cases hs : p.type.includesSequencing = true
  · exact ⟨.sequencing, hs⟩
  · have hd : p.type.includesData = true := by
      cases htype : p.type <;> simp_all [DependencyType.includesSequencing,
        DependencyType.includesData]
    obtain ⟨symbol, hsymbol⟩ := h.mp hd
    exact ⟨.data symbol, hsymbol⟩

/-- A provenance is the rules that took part and its symbols. -/
theorem ext_of_parts {q : Provenance}
    (hsequencing : p.type.includesSequencing = true ↔ q.type.includesSequencing = true)
    (hdata : p.type.includesData = true ↔ q.type.includesData = true)
    (hsymbols : ∀ symbol, symbol ∈ p.symbols ↔ symbol ∈ q.symbols) : p = q := by
  obtain ⟨s, symbols⟩ := p
  obtain ⟨t, symbols'⟩ := q
  have htype : s = t := by
    cases s <;> cases t <;>
      simp_all [DependencyType.includesSequencing, DependencyType.includesData]
  rw [htype]
  exact congrArg _ (HandleSet.ext hsymbols)

/-- A coherent provenance is the reasons that it cites. -/
theorem Coherent.ext {q : Provenance} (hp : p.Coherent) (hq : q.Coherent)
    (h : ∀ r, p.Cites r ↔ q.Cites r) : p = q := by
  refine ext_of_parts (h .sequencing) ?_ fun symbol => h (.data symbol)
  rw [hp.includesData_iff, hq.includesData_iff]
  exact exists_congr fun symbol => h (.data symbol)

/-- A provenance has *recorded* a reason: its rule took part, and its symbol is there if it has one.
In a provenance that is not coherent there is more to this than citing it. -/
def HasRecorded (p : Provenance) : Reason → Prop
  | .sequencing => p.type.includesSequencing = true
  | .data symbol => p.type.includesData = true ∧ symbol ∈ p.symbols

/-- **Recording a reason again changes nothing.** -/
theorem HasRecorded.record_eq (h : p.HasRecorded r) : p.record r = p := by
  cases r with
  | sequencing =>
      have hrule : p.type.includesSequencing = true := h
      exact ext_of_parts (by simp [record, hrule]) (by simp [record]) (by simp [record])
  | data symbol =>
      obtain ⟨hrule, hsymbol⟩ := h
      refine ext_of_parts (by simp [record]) (by simp [record, hrule]) fun symbol' => ?_
      rw [record, mem_addSymbol]
      refine or_iff_right_of_imp fun heq => ?_
      cases heq
      exact hsymbol

end Provenance

/-! ## The reasons of a graph -/

namespace DependencyGraph

variable {g : DependencyGraph} {a b c d : OperationId} {r r' : Reason}

/-- A graph cites a reason for a pair. -/
def Cites (g : DependencyGraph) (a b : OperationId) (r : Reason) : Prop :=
  ∃ p, g.edge? a b = some p ∧ p.Cites r

/-- Every provenance of a graph is coherent. -/
def Coherent (g : DependencyGraph) : Prop := ∀ a b p, g.edge? a b = some p → p.Coherent

theorem not_cites_empty (functionId : String) :
    ¬ Cites { functionId } a b r := by
  rintro ⟨p, hp, _⟩
  simp [edge?] at hp

@[simp] theorem cites_addNode (o : OperationId) : (g.addNode o).Cites a b r ↔ g.Cites a b r := by
  simp only [Cites, edge?_addNode]

/-- **A call adds one reason to one pair.** -/
theorem cites_addDependency :
    (g.addDependency a b r).2.Cites c d r' ↔ (c = a ∧ d = b ∧ r' = r) ∨ g.Cites c d r' := by
  simp only [Cites, addDependency, edge?_alterDependency]
  by_cases hpair : (a, b) = (c, d)
  · obtain ⟨rfl, rfl⟩ : a = c ∧ b = d := by simpa using hpair
    cases hold : g.edge? a b with
    | none => simp
    | some p => simp
  · have hne : ¬ (c = a ∧ d = b ∧ r' = r) := by
      rintro ⟨rfl, rfl, _⟩
      exact hpair rfl
    simp [hpair, hne]

namespace Coherent

theorem empty (functionId : String) : Coherent { functionId } := by
  intro a b p hp
  simp [edge?] at hp

theorem addNode (h : g.Coherent) (o : OperationId) : (g.addNode o).Coherent := by
  intro a b p hp
  rw [edge?_addNode] at hp
  exact h a b p hp

theorem addDependency (h : g.Coherent) (a b : OperationId) (r : Reason) :
    (g.addDependency a b r).2.Coherent := by
  intro c d p hp
  rw [DependencyGraph.addDependency, edge?_alterDependency] at hp
  split at hp
  · cases hold : g.edge? a b with
    | none =>
        rw [hold] at hp
        cases hp
        exact Provenance.Coherent.ofReason r
    | some q =>
        rw [hold] at hp
        cases hp
        exact (h a b q hold).record r
  · exact h c d p hp

/-- In a coherent graph an edge is there exactly when a reason for it is cited. -/
theorem isSome_edge?_iff (h : g.Coherent) : (g.edge? a b).isSome ↔ ∃ r, g.Cites a b r := by
  constructor
  · intro hsome
    obtain ⟨p, hp⟩ := Option.isSome_iff_exists.mp hsome
    obtain ⟨r, hr⟩ := (h a b p hp).exists_cites
    exact ⟨r, p, hp, hr⟩
  · rintro ⟨r, p, hp, _⟩
    rw [hp]
    rfl

end Coherent

/-- What is known of a pair in coherent graphs is the reasons that they cite for it. -/
theorem edge?_eq_of_cites {g' : DependencyGraph} (hcoherent : g.Coherent) (hcoherent' : g'.Coherent)
    (h : ∀ r, g.Cites a b r ↔ g'.Cites a b r) : g.edge? a b = g'.edge? a b := by
  have hsome : (g.edge? a b).isSome ↔ (g'.edge? a b).isSome := by
    rw [hcoherent.isSome_edge?_iff, hcoherent'.isSome_edge?_iff]
    exact exists_congr h
  cases hp : g.edge? a b with
  | none =>
      rw [hp] at hsome
      exact (Option.not_isSome_iff_eq_none.mp (mt hsome.mpr Bool.false_ne_true)).symm
  | some p =>
      rw [hp] at hsome
      obtain ⟨q, hq⟩ := Option.isSome_iff_exists.mp (hsome.mp rfl)
      have hcites : ∀ r, p.Cites r ↔ q.Cites r := by
        intro r
        simpa only [Cites, hp, hq, Option.some.injEq, exists_eq_left'] using h r
      rw [hq, (hcoherent a b p hp).ext (hcoherent' a b q hq) hcites]

/-- **A coherent graph is the reasons that it cites,** up to the order of its edges. -/
theorem edges_perm_of_cites {g' : DependencyGraph} (hg : g.WellFormed) (hcoherent : g.Coherent)
    (hg' : g'.WellFormed) (hcoherent' : g'.Coherent)
    (h : ∀ a b r, g.Cites a b r ↔ g'.Cites a b r) : g.edges.Perm g'.edges := by
  refine (List.perm_ext_iff_of_nodup (.of_map _ hg.pairs_nodup) (.of_map _ hg'.pairs_nodup)).mpr ?_
  rintro ⟨a, b, p⟩
  rw [hg.mem_edges, hg'.mem_edges, edge?_eq_of_cites hcoherent hcoherent' (h a b)]

end DependencyGraph

end ProgramSlice
