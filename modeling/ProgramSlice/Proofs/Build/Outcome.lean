import ProgramSlice.Proofs.Build.Tracking

/-!
# When a build fails

Three checks stand between an operation and its place in the graph: the store has to hold it, it
must not have been listed before, and there has to be room for it.  They are made in this order
and are interleaved with the growth of the graph, but what they decide can be read off the
traversal: `ProcedureBody.Fault` says what is wrong with one position, given the ones before it.

A run along the first positions either keeps track of all of them, none being faulty, or has
stopped with the error of the first faulty one (`upTo_outcome`, an induction on the number of
positions with `Findings.Tracks` as its invariant).  For the whole traversal this is
`build_outcome`.
-/

namespace ProgramSlice

namespace ProcedureBody

variable {s : BuildSettings} {body : ProcedureBody} {i n : Nat} {e e' : BuildError}

/-- What is wrong with the operation at a position.  An unknown operation is reported before a
repeated one, and a repeated one before a lack of room. -/
inductive Fault (s : BuildSettings) (body : ProcedureBody) (i : Nat) : BuildError → Prop
  /-- The store does not hold it. -/
  | unknown {k : Nat} {block : BasicBlock} {o : OperationId}
      (hblock : body.layout.HoldsAt k block i) (ho : body.layout.operations[i]? = some o)
      (hunknown : body.store.size ≤ o.index.toNat) :
      Fault s body i (.unknownOperation body.name block.ordinal o)
  /-- It is listed at an earlier position. -/
  | duplicate {k : Nat} {block : BasicBlock} {o : OperationId}
      (hblock : body.layout.HoldsAt k block i) (ho : body.layout.operations[i]? = some o)
      (hknown : o.index.toNat < body.store.size) (hseen : o ∈ body.layout.operations.take i) :
      Fault s body i (.duplicateOperation body.name block.ordinal o)
  /-- There is no room for it. -/
  | limit {o : OperationId} (ho : body.layout.operations[i]? = some o)
      (hknown : o.index.toNat < body.store.size) (hnew : o ∉ body.layout.operations.take i)
      (hfull : s.maxNodes.toNat < i + 1) :
      Fault s body i (.nodeLimitExceeded body.name s.maxNodes)

/-- Something is wrong with the operation at a position. -/
def Faulty (s : BuildSettings) (body : ProcedureBody) (i : Nat) : Prop :=
  ∃ o, body.layout.operations[i]? = some o ∧ (body.store.size ≤ o.index.toNat ∨
    o ∈ body.layout.operations.take i ∨ s.maxNodes.toNat < i + 1)

/-- A position has this fault, and no earlier position has any. -/
def FirstFault (s : BuildSettings) (body : ProcedureBody) (i : Nat) (e : BuildError) : Prop :=
  Fault s body i e ∧ ∀ k < i, ¬ Faulty s body k

theorem Fault.faulty (h : Fault s body i e) : Faulty s body i := by
  cases h with
  | unknown _ ho hunknown => exact ⟨_, ho, Or.inl hunknown⟩
  | duplicate _ ho _ hseen => exact ⟨_, ho, Or.inr (Or.inl hseen)⟩
  | limit ho _ _ hfull => exact ⟨_, ho, Or.inr (Or.inr hfull)⟩

/-- What is wrong with a position is one of the three faults. -/
theorem Faulty.exists_fault (h : Faulty s body i) : ∃ e, Fault s body i e := by
  obtain ⟨o, ho, hwrong⟩ := h
  obtain ⟨k, block, hblock⟩ :=
    BlockLayout.exists_holdsAt (List.getElem?_eq_some_iff.mp ho).1
  by_cases hknown : o.index.toNat < body.store.size
  · by_cases hseen : o ∈ body.layout.operations.take i
    · exact ⟨_, .duplicate hblock ho hknown hseen⟩
    · rcases hwrong with hunknown | hseen' | hfull
      · exact absurd hknown (Nat.not_lt.mpr hunknown)
      · exact absurd hseen' hseen
      · exact ⟨_, .limit ho hknown hseen hfull⟩
  · exact ⟨_, .unknown hblock ho (Nat.not_lt.mp hknown)⟩

/-- If any position is faulty, one is the first. -/
theorem exists_firstFault (h : ∃ i, Faulty s body i) : ∃ i e, FirstFault s body i e := by
  classical
  obtain ⟨e, he⟩ := (Nat.find_spec h).exists_fault
  exact ⟨Nat.find h, e, he, fun k hk => Nat.find_min h hk⟩

theorem Faulty.lt_length (h : Faulty s body i) : i < body.layout.operations.length := by
  obtain ⟨o, ho, _⟩ := h
  exact (List.getElem?_eq_some_iff.mp ho).1

end ProcedureBody

/-! ## One visit -/

theorem OperationStore.get?_eq_none_iff {t : OperationStore} {o : OperationId} :
    t.get? o = none ↔ t.size ≤ o.index.toNat := List.getElem?_eq_none_iff

namespace Findings

variable {s : BuildSettings} {body : ProcedureBody} {i n : Nat} {f : Findings} {v : Visit}
  {e : BuildError} {operation : Operation}

theorem receive_of_unknown (hstore : body.store.get? v.operation = none) :
    f.receive s body v = .error (.unknownOperation body.name v.ordinal v.operation) := by
  simp only [receive, visit, hstore]

theorem receive_of_seen (hstore : body.store.get? v.operation = some operation)
    (hseen : v.operation ∈ f.graph.nodes) :
    f.receive s body v = .error (.duplicateOperation body.name v.ordinal v.operation) := by
  simp only [receive, visit, hstore, DependencyGraph.containsNode, hseen, decide_true, if_true]

theorem receive_of_full (hstore : body.store.get? v.operation = some operation)
    (hnew : v.operation ∉ f.graph.nodes)
    (hfull : s.maxNodes.toNat < (f.graph.addNode v.operation).nodeCount) :
    f.receive s body v = .error (.nodeLimitExceeded body.name s.maxNodes) := by
  simp only [receive, visit, hstore, DependencyGraph.containsNode, hnew, decide_false,
    Bool.false_eq_true, if_false, if_pos hfull]

theorem receive_of_room (hstore : body.store.get? v.operation = some operation)
    (hnew : v.operation ∉ f.graph.nodes)
    (hroom : ¬ s.maxNodes.toNat < (f.graph.addNode v.operation).nodeCount) :
    f.receive s body v = .ok (f.absorb s v.operation v.previous operation) := by
  simp only [receive, visit, hstore, DependencyGraph.containsNode, hnew, decide_false,
    Bool.false_eq_true, if_false, if_neg hroom]

/-- **A faulty position** stops the pass with its fault. -/
theorem Tracks.receive_of_fault (h : f.Tracks s body n) (hv : body.layout.visits[n]? = some v)
    (hfault : body.Fault s n e) : f.receive s body v = .error e := by
  have hn := Tracks.getElem?_operations hv
  cases hfault with
  | unknown hblock ho hunknown =>
      obtain rfl := Option.some.inj (hn.symm.trans ho)
      rw [← BlockLayout.ordinal_of_visits hv hblock]
      exact receive_of_unknown (OperationStore.get?_eq_none_iff.mpr hunknown)
  | duplicate hblock ho hknown hseen =>
      obtain rfl := Option.some.inj (hn.symm.trans ho)
      obtain ⟨operation, hstore⟩ := Option.ne_none_iff_exists'.mp
        (mt OperationStore.get?_eq_none_iff.mp (Nat.not_le.mpr hknown))
      rw [← BlockLayout.ordinal_of_visits hv hblock]
      exact receive_of_seen hstore (by rwa [h.nodes])
  | limit ho hknown hnew hfull =>
      obtain rfl := Option.some.inj (hn.symm.trans ho)
      obtain ⟨operation, hstore⟩ := Option.ne_none_iff_exists'.mp
        (mt OperationStore.get?_eq_none_iff.mp (Nat.not_le.mpr hknown))
      have hmem : v.operation ∉ f.graph.nodes := by rwa [h.nodes]
      exact receive_of_full hstore hmem (by rwa [h.nodeCount_addNode hv hmem])

/-- **A position without fault** is taken in. -/
theorem Tracks.receive_of_not_faulty (h : f.Tracks s body n) (hv : body.layout.visits[n]? = some v)
    (hclean : ¬ body.Faulty s n) :
    ∃ operation, body.store.get? v.operation = some operation ∧ v.operation ∉ f.graph.nodes ∧
      f.receive s body v = .ok (f.absorb s v.operation v.previous operation) := by
  have hn := Tracks.getElem?_operations hv
  obtain ⟨operation, hstore⟩ := Option.ne_none_iff_exists'.mp
    (mt OperationStore.get?_eq_none_iff.mp fun hunknown => hclean ⟨_, hn, Or.inl hunknown⟩)
  have hmem : v.operation ∉ f.graph.nodes := by
    rw [h.nodes]
    exact fun hseen => hclean ⟨_, hn, Or.inr (Or.inl hseen)⟩
  have hcount : ¬ s.maxNodes.toNat < (f.graph.addNode v.operation).nodeCount := by
    rw [h.nodeCount_addNode hv hmem]
    exact fun hfull => hclean ⟨_, hn, Or.inr (Or.inr hfull)⟩
  exact ⟨operation, hstore, hmem, receive_of_room hstore hmem hcount⟩

/-! ## The run -/

theorem exists_visit (hn : n < body.layout.operations.length) :
    ∃ v, body.layout.visits[n]? = some v :=
  ⟨_, List.getElem?_eq_getElem (by rwa [BlockLayout.length_visits])⟩

/-- **A run without faults** keeps track of every position. -/
theorem upTo_of_clean (hn : n ≤ body.layout.operations.length)
    (hclean : ∀ k < n, ¬ body.Faulty s k) : ∃ f, upTo s body n = .ok f ∧ f.Tracks s body n := by
  induction n with
  | zero => exact ⟨begun body, rfl, .begun s body⟩
  | succ n ih =>
      obtain ⟨f, hf, htracks⟩ :=
        ih (Nat.le_of_succ_le hn) fun k hk => hclean k (Nat.lt_succ_of_lt hk)
      obtain ⟨v, hv⟩ := exists_visit hn
      obtain ⟨operation, hstore, hnew, hreceive⟩ :=
        htracks.receive_of_not_faulty hv (hclean n (Nat.lt_succ_self n))
      refine ⟨_, ?_, htracks.absorb hv hstore hnew⟩
      rw [upTo_succ hv, hf]
      exact hreceive

/-- **A run into a fault** ends with the first one, however far it was to go. -/
theorem upTo_of_firstFault (hfirst : body.FirstFault s i e) (hi : i < n)
    (hn : n ≤ body.layout.operations.length) : upTo s body n = .error e := by
  induction n with
  | zero => exact absurd hi (Nat.not_lt_zero i)
  | succ n ih =>
      obtain ⟨v, hv⟩ := exists_visit hn
      rw [upTo_succ hv]
      rcases Nat.lt_or_eq_of_le (Nat.le_of_lt_succ hi) with hlt | rfl
      · rw [ih hlt (Nat.le_of_succ_le hn)]
        rfl
      · obtain ⟨f, hf, htracks⟩ := upTo_of_clean (Nat.le_of_succ_le hn) hfirst.2
        rw [hf]
        exact htracks.receive_of_fault hv hfirst.1

/-- **What taking in an operation keeps, a run keeps.**  A property that holds at one moment of a
run holds at every later one, if it is kept whenever the next operation is taken in. -/
theorem upTo_induction {P : Nat → Findings → Prop} {m : Nat} {f' : Findings}
    (hm : upTo s body m = .ok f) (hmn : m ≤ n) (hn : n ≤ body.layout.operations.length)
    (hclean : ∀ k < n, ¬ body.Faulty s k) (hstart : P m f)
    (hstep : ∀ {k : Nat} {f : Findings} {v : Visit} {operation : Operation},
      f.Tracks s body k → body.layout.visits[k]? = some v →
      body.store.get? v.operation = some operation → v.operation ∉ f.graph.nodes →
      P k f → P (k + 1) (f.absorb s v.operation v.previous operation))
    (hf' : upTo s body n = .ok f') : P n f' := by
  induction n generalizing f' with
  | zero =>
      obtain rfl := Nat.le_zero.mp hmn
      rw [hm] at hf'
      cases hf'
      exact hstart
  | succ n ih =>
      rcases Nat.lt_or_eq_of_le hmn with hlt | rfl
      · have hearlier : ∀ k < n, ¬ body.Faulty s k := fun k hk => hclean k (Nat.lt_succ_of_lt hk)
        obtain ⟨g, hg, htracks⟩ := upTo_of_clean (Nat.le_of_succ_le hn) hearlier
        obtain ⟨v, hv⟩ := exists_visit hn
        obtain ⟨operation, hstore, hnew, hreceive⟩ :=
          htracks.receive_of_not_faulty hv (hclean n (Nat.lt_succ_self n))
        have hP := ih (Nat.le_of_lt_succ hlt) (Nat.le_of_succ_le hn) hearlier hg
        have hlast : upTo s body (n + 1)
            = .ok (g.absorb s v.operation v.previous operation) := by
          rw [upTo_succ hv, hg]
          exact hreceive
        rw [hlast] at hf'
        cases hf'
        exact hstep htracks hv hstore hnew hP
      · rw [hm] at hf'
        cases hf'
        exact hstart

end Findings

/-! ## The build -/

/-- A result of which something holds is a success. -/
theorem exists_ok_of_any {ε α : Type} {r : Except ε α} {p : α → Bool}
    (h : r.toOption.any p = true) : ∃ a, r = .ok a ∧ p a = true := by
  cases r with
  | error e => cases h
  | ok a => exact ⟨a, rfl, h⟩

section Build

variable {s : BuildSettings} {body : ProcedureBody} {i : Nat} {e : BuildError}
  {g : DependencyGraph}

theorem result_of_firstFault (h : body.FirstFault s i e) :
    (buildWithTrace s body).result = .error e := by
  rw [result_buildWithTrace, Findings.upTo_of_firstFault h h.1.faulty.lt_length le_rfl]
  rfl

theorem build_of_firstFault (h : body.FirstFault s i e) : build s body = .error e := by
  rw [build, result_of_firstFault h]
  rfl

theorem result_of_clean (h : ∀ k, ¬ body.Faulty s k) :
    ∃ f : Findings, (buildWithTrace s body).result = .ok (f.graph, f.trace) ∧
      f.Tracks s body body.layout.operations.length := by
  obtain ⟨f, hf, htracks⟩ := Findings.upTo_of_clean le_rfl fun k _ => h k
  refine ⟨f, ?_, htracks⟩
  rw [result_buildWithTrace, hf]
  rfl

theorem build_of_clean (h : ∀ k, ¬ body.Faulty s k) :
    ∃ f : Findings, build s body = .ok f.graph ∧
      f.Tracks s body body.layout.operations.length := by
  obtain ⟨f, hf, htracks⟩ := result_of_clean h
  refine ⟨f, ?_, htracks⟩
  rw [build, hf]
  rfl

/-- What a build gives is a graph that tracks the whole traversal, and no position was faulty. -/
theorem clean_of_build (h : build s body = .ok g) : ∀ k, ¬ body.Faulty s k := by
  intro k hk
  obtain ⟨i, e, hfirst⟩ := ProcedureBody.exists_firstFault ⟨k, hk⟩
  rw [build_of_firstFault hfirst] at h
  cases h

theorem tracks_of_build (h : build s body = .ok g) :
    ∃ f : Findings, f.graph = g ∧ f.Tracks s body body.layout.operations.length := by
  obtain ⟨f, hf, htracks⟩ := build_of_clean (clean_of_build h)
  rw [h] at hf
  exact ⟨f, (Except.ok.inj hf).symm, htracks⟩

/-- A graph that was built is what a run along the whole traversal ends with. -/
theorem exists_upTo_of_build (h : build s body = .ok g) : ∃ f : Findings, f.graph = g ∧
    Findings.upTo s body body.layout.operations.length = .ok f := by
  rw [build_eq] at h
  cases hf : Findings.upTo s body body.layout.operations.length with
  | error e =>
      rw [hf] at h
      cases h
  | ok f =>
      rw [hf] at h
      cases h
      exact ⟨f, rfl, rfl⟩

theorem nodes_of_build (h : build s body = .ok g) : g.nodes = body.layout.operations := by
  obtain ⟨f, rfl, htracks⟩ := tracks_of_build h
  rw [htracks.nodes, List.take_length]

theorem nodup_of_build (h : build s body = .ok g) : body.layout.operations.Nodup := by
  obtain ⟨f, rfl, htracks⟩ := tracks_of_build h
  rw [← nodes_of_build h]
  exact htracks.wellFormed.nodes_nodup

/-- A body that builds lists no more operations than are allowed: its last position has room. -/
theorem length_le_of_build (h : build s body = .ok g) :
    body.layout.operations.length ≤ s.maxNodes.toNat := by
  by_contra hlong
  have hpos : body.layout.operations.length - 1 < body.layout.operations.length := by omega
  exact clean_of_build h _
    ⟨_, List.getElem?_eq_getElem hpos, Or.inr (Or.inr (by omega))⟩

/-- **The outcome of a build** is decided by the first faulty position.  A build fails exactly when
some position is faulty, and its error is the fault of the first one.  A build that does not fail
has the operations in traversal order as its nodes, none of them twice and no more than allowed. -/
theorem build_outcome (s : BuildSettings) (body : ProcedureBody) :
    ((∃ e, build s body = .error e) ↔ ∃ i, body.Faulty s i) ∧
    (∀ e, build s body = .error e ↔ ∃ i, body.FirstFault s i e) ∧
    (∀ g, build s body = .ok g → g.nodes = body.layout.operations ∧
      body.layout.operations.Nodup ∧ body.layout.operations.length ≤ s.maxNodes.toNat) := by
  have herror : ∀ e, build s body = .error e → ∃ i, body.FirstFault s i e := by
    intro e he
    by_cases hfaulty : ∃ i, body.Faulty s i
    · obtain ⟨i, e', hfirst⟩ := ProcedureBody.exists_firstFault hfaulty
      rw [build_of_firstFault hfirst] at he
      cases he
      exact ⟨i, hfirst⟩
    · obtain ⟨f, hf, _⟩ := build_of_clean fun k hk => hfaulty ⟨k, hk⟩
      rw [hf] at he
      cases he
  refine ⟨⟨?_, ?_⟩, fun e => ⟨herror e, ?_⟩, fun g hg => ?_⟩
  · rintro ⟨e, he⟩
    obtain ⟨i, hfirst⟩ := herror e he
    exact ⟨i, hfirst.1.faulty⟩
  · intro hfaulty
    obtain ⟨i, e, hfirst⟩ := ProcedureBody.exists_firstFault hfaulty
    exact ⟨e, build_of_firstFault hfirst⟩
  · rintro ⟨i, hfirst⟩
    exact build_of_firstFault hfirst
  · exact ⟨nodes_of_build hg, nodup_of_build hg, length_le_of_build hg⟩

end Build

end ProgramSlice
