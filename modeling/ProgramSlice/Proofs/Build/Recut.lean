import ProgramSlice.Proofs.Build.Alike
import ProgramSlice.Proofs.Build.Recall

/-!
# Cutting a traversal into blocks

Blocks cut a traversal into runs.  Of two bodies that list the same operations and are cut into
blocks in different ways (`Recut`) a build finds out nearly the same: they fail at the same
operation for the same reason (`Recut.outcome`), and if they have graphs, these have the same nodes,
last writers and unresolved targets (`Recut.found`).  What is left is the operation before, and with
it the sequencing rule.  Where the visits agree on it too, the graphs and traces are the same
(`Recut.eq_of_visits`).
-/

namespace ProgramSlice

theorem functionId_of_build {s : BuildSettings} {body : ProcedureBody} {g : DependencyGraph}
    (h : build s body = .ok g) : g.functionId = body.name := by
  have hclean := clean_of_build h
  obtain ⟨f, rfl, hf⟩ := exists_upTo_of_build h
  exact Findings.upTo_induction (P := fun _ f => f.graph.functionId = body.name) (m := 0) rfl
    (Nat.zero_le _) le_rfl (fun k _ => hclean k) rfl
    (fun _ _ _ _ hname => (Findings.functionId_absorb ..).trans hname) hf

namespace ProcedureBody

variable {s : BuildSettings} {body body' : ProcedureBody} {i j k n : Nat} {symbol : SymbolId}
  {e : BuildError}

/-- Two bodies list the same operations, cut into blocks in any ways. -/
structure Recut (body body' : ProcedureBody) : Prop where
  name : body'.name = body.name
  store : body'.store = body.store
  operations : body'.layout.operations = body.layout.operations

namespace Recut

theorem writesAt (h : body.Recut body') : body'.WritesAt i symbol ↔ body.WritesAt i symbol := by
  simp only [WritesAt, operationAt, h.operations, h.store]

theorem readsAt (h : body.Recut body') : body'.ReadsAt i symbol ↔ body.ReadsAt i symbol := by
  simp only [ReadsAt, operationAt, h.operations, h.store]

theorem lastWriteBefore (h : body.Recut body') :
    body'.LastWriteBefore symbol n j ↔ body.LastWriteBefore symbol n j := by
  simp only [LastWriteBefore, h.writesAt]

theorem lastWrite (h : body.Recut body') :
    body'.LastWrite symbol i j ↔ body.LastWrite symbol i j := by
  simp only [LastWrite, h.writesAt]

theorem faulty (h : body.Recut body') : body'.Faulty s i ↔ body.Faulty s i := by
  simp only [Faulty, h.operations, h.store]

/-- What is wrong with a position is the same, but for the number of the block around it. -/
theorem exists_fault (h : body.Recut body') (hfault : body.Fault s i e) :
    ∃ e', body'.Fault s i e' ∧ e.unnumbered = e'.unnumbered := by
  obtain ⟨o, ho, -⟩ := hfault.faulty
  have hlt : i < body'.layout.operations.length := by
    rw [h.operations]
    exact (List.getElem?_eq_some_iff.mp ho).1
  obtain ⟨k, block, hblock⟩ := BlockLayout.exists_holdsAt hlt
  cases hfault with
  | unknown _ ho hunknown =>
      refine ⟨_, .unknown hblock (by rwa [h.operations]) (by rwa [h.store]), ?_⟩
      rw [h.name]
      rfl
  | duplicate _ ho hknown hseen =>
      refine ⟨_, .duplicate hblock (by rwa [h.operations]) (by rwa [h.store])
        (by rwa [h.operations]), ?_⟩
      rw [h.name]
      rfl
  | limit ho hknown hnew hfull =>
      refine ⟨_, .limit (by rwa [h.operations]) (by rwa [h.store]) (by rwa [h.operations]) hfull,
        ?_⟩
      rw [h.name]

/-- **However a traversal is cut,** a build fails at the same operation for the same reason, or does
not fail. -/
theorem outcome (h : body.Recut body') (s : BuildSettings) :
    (∃ e e', (buildWithTrace s body).result = .error e ∧
      (buildWithTrace s body').result = .error e' ∧ e.unnumbered = e'.unnumbered) ∨
    ∃ g t g' t', (buildWithTrace s body).result = .ok (g, t) ∧
      (buildWithTrace s body').result = .ok (g', t') := by
  by_cases hfaulty : ∃ i, body.Faulty s i
  · obtain ⟨i, e, hfault, hclean⟩ := exists_firstFault hfaulty
    obtain ⟨e', hfault', he⟩ := h.exists_fault hfault
    exact Or.inl ⟨e, e', result_of_firstFault ⟨hfault, hclean⟩,
      result_of_firstFault ⟨hfault', fun k hk => mt h.faulty.mp (hclean k hk)⟩, he⟩
  · obtain ⟨f, hf, -⟩ := result_of_clean fun i hi => hfaulty ⟨i, hi⟩
    obtain ⟨f', hf', -⟩ := result_of_clean fun i hi => hfaulty ⟨i, h.faulty.mp hi⟩
    exact Or.inr ⟨f.graph, f.trace, f'.graph, f'.trace, hf, hf'⟩

/-- **However a traversal is cut,** a build finds the same nodes, last writers and unresolved
targets. -/
theorem found (h : body.Recut body') {g g' : DependencyGraph} {t t' : BuildTrace}
    (hg : (buildWithTrace s body).result = .ok (g, t))
    (hg' : (buildWithTrace s body').result = .ok (g', t')) :
    g'.functionId = g.functionId ∧ g'.nodes = g.nodes ∧ t'.lastWriter = t.lastWriter ∧
      t'.unresolvedTargets = t.unresolvedTargets := by
  have hname := functionId_of_build (build_of_result hg)
  have hname' := functionId_of_build (build_of_result hg')
  obtain ⟨f, rfl, rfl, -, htracks, hrecalls⟩ := findings_of_result hg
  obtain ⟨f', rfl, rfl, -, htracks', hrecalls'⟩ := findings_of_result hg'
  refine ⟨?_, ?_, ?_, ?_⟩
  · rw [hname, hname', h.name]
  · rw [htracks.nodes, htracks'.nodes, h.operations]
  · refine HandleMap.ext fun symbol => Option.ext fun o => ?_
    rw [htracks.lastWriter, htracks'.lastWriter, h.operations]
    simp only [h.lastWriteBefore]
  · have hleaves : body'.leavesUnresolved = body.leavesUnresolved := by
      funext o
      rw [leavesUnresolved, leavesUnresolved, h.store]
    rw [hrecalls.unresolvedTargets, hrecalls'.unresolvedTargets, h.operations, hleaves]

end Recut

end ProcedureBody

/-! ## The same visits -/

namespace Findings

variable {v v' : Visit} {visits visits' : List Visit}

/-- The number of the block of a visit shows in errors only. -/
theorem receive_unnumbered (s : BuildSettings) (body : ProcedureBody)
    (h : v'.unnumbered = v.unnumbered) (f : Findings) :
    (f.receive s body v').mapError BuildError.unnumbered
      = (f.receive s body v).mapError BuildError.unnumbered := by
  obtain ⟨ordinal, previous, o⟩ := v
  obtain ⟨ordinal', previous', o'⟩ := v'
  cases h
  simp only [receive, visit]
  cases body.store.get? o with
  | none => rfl
  | some operation =>
      simp only
      split
      · rfl
      · split <;> rfl

theorem foldlM_receive_unnumbered (s : BuildSettings) (body : ProcedureBody)
    (h : visits'.map Visit.unnumbered = visits.map Visit.unnumbered) (f : Findings) :
    (visits'.foldlM (receive s body) f).mapError BuildError.unnumbered
      = (visits.foldlM (receive s body) f).mapError BuildError.unnumbered := by
  induction visits generalizing visits' f with
  | nil =>
      obtain rfl := List.map_eq_nil_iff.mp h
      rfl
  | cons v rest ih =>
      obtain ⟨v', rest', rfl, hv, hrest⟩ := List.map_eq_cons_iff.mp h
      have hreceive := receive_unnumbered s body hv f
      rw [List.foldlM_cons, List.foldlM_cons]
      generalize f.receive s body v = outcome at hreceive ⊢
      generalize f.receive s body v' = outcome' at hreceive ⊢
      cases outcome with
      | error e =>
          cases outcome' with
          | error e' => exact hreceive
          | ok f' => cases hreceive
      | ok f₁ =>
          cases outcome' with
          | error e' => cases hreceive
          | ok f₂ =>
              cases hreceive
              exact ih hrest f₁

end Findings

/-- **Bodies with the same visits,** but for the numbers of the blocks, have the same graphs. -/
theorem ProcedureBody.Recut.eq_of_visits {s : BuildSettings} {body body' : ProcedureBody}
    {g g' : DependencyGraph} {t t' : BuildTrace} (h : body.Recut body')
    (hvisits : body'.layout.visits.map Visit.unnumbered = body.layout.visits.map Visit.unnumbered)
    (hg : (buildWithTrace s body).result = .ok (g, t))
    (hg' : (buildWithTrace s body').result = .ok (g', t')) : g' = g ∧ t' = t := by
  obtain ⟨f, rfl, rfl, hf, -, -⟩ := findings_of_result hg
  obtain ⟨f', rfl, rfl, hf', -, -⟩ := findings_of_result hg'
  -- a visit looks at the name and the store of a body only
  have hreceive : Findings.receive s body' = Findings.receive s body := by
    funext f v
    rw [Findings.receive, Findings.receive, Findings.visit, Findings.visit, h.name, h.store]
  have hbegun : Findings.begun body' = Findings.begun body := by
    rw [Findings.begun, Findings.begun, h.name]
  have htake : ∀ n, (body'.layout.visits.take n).map Visit.unnumbered
      = (body.layout.visits.take n).map Visit.unnumbered := by
    intro n
    rw [List.map_take, List.map_take, hvisits]
  rw [Findings.upTo, h.operations, hreceive, hbegun] at hf'
  rw [Findings.upTo] at hf
  have hrun := Findings.foldlM_receive_unnumbered s body (htake body.layout.operations.length)
    (Findings.begun body)
  rw [hf', hf] at hrun
  cases hrun
  exact ⟨rfl, rfl⟩

end ProgramSlice
