import ProgramSlice.Proofs.Build.Outcome

/-!
# The edges of a built graph

The edges of a built graph are the instances of the two rules and nothing else.  The pass carries
last writers, resets the operation before at each block and merges reasons that hit one pair; what
is left of all this is the relation `ProcedureBody.Gives` between positions.

A built graph has its operations in traversal order as nodes, each once, so a node stands for its
position and edges can be read by positions (`cites_iff_gives`).  Since it was put together reason
by reason, its edges and their types follow from the reasons that it cites
(`DependencyGraph.Coherent`).
-/

namespace ProgramSlice

variable {s : BuildSettings} {body : ProcedureBody} {g : DependencyGraph} {i j : Nat}
  {a b : OperationId} {r : Reason}

theorem wellFormed_of_build (h : build s body = .ok g) : g.WellFormed := by
  obtain ⟨f, rfl, htracks⟩ := tracks_of_build h
  exact htracks.wellFormed

theorem coherent_of_build (h : build s body = .ok g) : g.Coherent := by
  obtain ⟨f, rfl, htracks⟩ := tracks_of_build h
  exact htracks.coherent

/-- An operation stands at one position of a body that builds. -/
theorem position_unique (h : build s body = .ok g) (hi : body.layout.operations[i]? = some a)
    (hj : body.layout.operations[j]? = some a) : i = j :=
  BlockLayout.position_inj (nodup_of_build h) hi hj

/-- **A built graph cites what the rules give.** -/
theorem cites_iff_gives (h : build s body = .ok g) (ha : body.layout.operations[i]? = some a)
    (hb : body.layout.operations[j]? = some b) : g.Cites a b r ↔ body.Gives s i j r := by
  have hunique := @position_unique s body g
  obtain ⟨f, rfl, htracks⟩ := tracks_of_build h
  rw [htracks.cites]
  constructor
  · rintro ⟨i', j', _, ha', hb', hgives⟩
    rwa [hunique h ha ha', hunique h hb hb']
  · intro hgives
    exact ⟨i, j, (List.getElem?_eq_some_iff.mp ha).1, ha, hb, hgives⟩

/-- The ends of an edge stand at positions of the traversal. -/
theorem exists_positions (h : build s body = .ok g) {e : Edge} (he : e ∈ g.edges) :
    ∃ i j : Nat, body.layout.operations[i]? = some e.dependent ∧
      body.layout.operations[j]? = some e.dependency := by
  have hg := wellFormed_of_build h
  have hdependent := hg.dependent_mem he
  have hdependency := hg.dependency_mem he
  rw [nodes_of_build h] at hdependent hdependency
  obtain ⟨i, hi⟩ := List.mem_iff_getElem?.mp hdependent
  obtain ⟨j, hj⟩ := List.mem_iff_getElem?.mp hdependency
  exact ⟨i, j, hi, hj⟩

/-- There is an edge between two operations when a rule gives a reason for it. -/
theorem exists_edge_iff (h : build s body = .ok g) (ha : body.layout.operations[i]? = some a)
    (hb : body.layout.operations[j]? = some b) :
    (∃ p, ⟨a, b, p⟩ ∈ g.edges) ↔ ∃ r, body.Gives s i j r := by
  have hsome : (∃ p, ⟨a, b, p⟩ ∈ g.edges) ↔ (g.edge? a b).isSome := by
    simp only [(wellFormed_of_build h).mem_edges, Option.isSome_iff_exists]
  rw [hsome, (coherent_of_build h).isSome_edge?_iff]
  exact exists_congr fun r => cites_iff_gives h ha hb

/-- An edge has the reasons that the rules give for it. -/
theorem cites_of_mem_edges (h : build s body = .ok g) (ha : body.layout.operations[i]? = some a)
    (hb : body.layout.operations[j]? = some b) {p : Provenance} (hp : ⟨a, b, p⟩ ∈ g.edges) :
    p.Cites r ↔ body.Gives s i j r := by
  rw [(wellFormed_of_build h).mem_edges] at hp
  rw [← cites_iff_gives h ha hb]
  constructor
  · exact fun hr => ⟨p, hp, hr⟩
  · -- the graph knows one provenance of the pair
    rintro ⟨q, hq, hr⟩
    rw [hp] at hq
    cases hq
    exact hr

/-- Two local variables in three blocks, of which the middle one is empty and two share a number.
The second block with operations writes a field that has the number of the first local, so that its
read of the local resolves to itself, and the last operation hides that write in turn. -/
def sharedNumbers : ProcedureBody :=
  let x : SymbolId := ⟨0⟩
  let y : SymbolId := ⟨1⟩
  let sum : Expression := .binary .add (.localRef x) (.localRef y)
  let operation (n : UInt32) (action : Action) : Operation := ⟨⟨n⟩, action, none, none⟩
  { name := "sharedNumbers"
    store := ⟨[operation 0 (.declare x (.int 1)), operation 1 (.declare y (.localRef x)),
      operation 2 (.assign (.fieldRef none x) sum), operation 3 (.assign (.localRef x) sum)]⟩
    layout := ⟨[⟨0, [⟨0⟩, ⟨1⟩]⟩, ⟨7, []⟩, ⟨7, [⟨2⟩, ⟨3⟩]⟩]⟩ }

end ProgramSlice
