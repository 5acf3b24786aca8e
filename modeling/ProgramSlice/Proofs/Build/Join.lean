import ProgramSlice.Proofs.Build.Recut

/-!
# The boundary between two blocks

Joining two adjacent blocks takes away one of the places where the traversal is cut.  If one of the
blocks is empty, the visits are the same, and so is all that comes of them.  Otherwise one position
is tied to the one before it that was not (`JoinedAt`).

The two runs go different ways from there on, since the sequencing rule may add an edge in the
middle of one of them, so they are not followed together but compared by the reasons that their
graphs cite when they end.  The joined body gives one reason more (`Recut.gives_iff`), and what is
known of a pair is what one more call of `addDependency` would tell (`Recut.edge?_eq`).
-/

namespace ProgramSlice

/-! ## One position more in one block -/

namespace BasicBlock

/-- What follows in a block goes on behind the last operation. -/
theorem steps_append (previous : Option OperationId) (operations later : List OperationId) :
    steps previous (operations ++ later)
      = steps previous operations ++ steps (operations.getLast?.or previous) later := by
  induction operations generalizing previous with
  | nil => rfl
  | cons o rest ih =>
      have hlast : (o :: rest).getLast?.or previous = rest.getLast?.or (some o) := by
        cases h : rest.getLast? <;> simp [List.getLast?_cons, h]
      rw [List.cons_append, steps, steps, ih, hlast, List.cons_append]

end BasicBlock

namespace BlockLayout

variable {l l' : BlockLayout} {i j k : Nat} {block : BasicBlock} {first last : OperationId}
  {before after : List (Option OperationId × OperationId)}

/-- Of two layouts of the same operations the second has one position in one entry with the position
before it that lies apart in the first. -/
structure JoinedAt (l l' : BlockLayout) (j : Nat) : Prop where
  operations : l'.operations = l.operations
  apart : ¬ l.SameBlock (j + 1) j
  sameBlock : ∀ i, l'.SameBlock (i + 1) i ↔ i = j ∨ l.SameBlock (i + 1) i

theorem operations_eq_map_unnumbered (l : BlockLayout) :
    l.operations = (l.visits.map Visit.unnumbered).map Prod.snd := by
  rw [← map_operation_visits, List.map_map]
  rfl

theorem HoldsAt.exists_operation (h : l.HoldsAt k block i) : ∃ o, l.operations[i]? = some o := by
  have hlt : i - l.start k < block.operations.length := by
    have := h.2.1
    have := h.2.2
    omega
  rw [h.getElem?_operations]
  exact ⟨_, List.getElem?_eq_getElem hlt⟩

/-- A visit has an operation before it if its position lies in one entry with the one before. -/
theorem sameBlock_succ_iff : l.SameBlock (j + 1) j ↔
    ∃ p o, (l.visits.map Visit.unnumbered)[j + 1]? = some (some p, o) := by
  simp only [List.getElem?_map, Option.map_eq_some_iff]
  constructor
  · intro h
    obtain ⟨k, block, hi, hj⟩ := h
    obtain ⟨o, ho⟩ := hi.exists_operation
    obtain ⟨p, hp⟩ := hj.exists_operation
    have hlt : j + 1 < l.visits.length := by
      rw [length_visits]
      exact (List.getElem?_eq_some_iff.mp ho).1
    have hv := List.getElem?_eq_getElem hlt
    have hprevious := (previous_of_visits hv).mpr ⟨j, rfl, ⟨k, block, hi, hj⟩, hp⟩
    exact ⟨p, _, _, hv, Prod.ext hprevious rfl⟩
  · rintro ⟨p, o, v, hv, hstep⟩
    obtain ⟨j', hj', hblock, -⟩ := (previous_of_visits hv).mp (congrArg Prod.fst hstep)
    cases hj'
    exact hblock

/-- **One visit tells the layouts apart:** in the first it has no operation before it. -/
theorem exists_joinedAt (h : l.visits.map Visit.unnumbered = before ++ (none, first) :: after)
    (h' : l'.visits.map Visit.unnumbered = before ++ (some last, first) :: after) :
    ∃ j, l.operations[j]? = some last ∧ l.operations[j + 1]? = some first ∧ l.JoinedAt l' j := by
  have hoperations : l'.operations = l.operations := by
    rw [operations_eq_map_unnumbered, operations_eq_map_unnumbered, h, h']
    simp
  have hlist : (l.visits.map Visit.unnumbered)[before.length]? = some (none, first) := by
    rw [h, List.getElem?_append_right le_rfl, Nat.sub_self, List.getElem?_cons_zero]
  have hlist' : (l'.visits.map Visit.unnumbered)[before.length]? = some (some last, first) := by
    rw [h', List.getElem?_append_right le_rfl, Nat.sub_self, List.getElem?_cons_zero]
  have hother : ∀ n, n ≠ before.length →
      (l'.visits.map Visit.unnumbered)[n]? = (l.visits.map Visit.unnumbered)[n]? := by
    intro n hn
    rw [h, h']
    rcases Nat.lt_or_gt_of_ne hn with hlt | hgt
    · rw [List.getElem?_append_left hlt, List.getElem?_append_left hlt]
    · obtain ⟨m, rfl⟩ := Nat.exists_eq_add_of_lt hgt
      simp [List.getElem?_append_right, Nat.add_assoc]
  -- the visit behind the boundary has an operation before it, so it is not the first visit
  obtain ⟨v, hv, hstep⟩ : ∃ v, l'.visits[before.length]? = some v ∧
      v.unnumbered = (some last, first) := by
    rwa [List.getElem?_map, Option.map_eq_some_iff] at hlist'
  obtain ⟨j, hj, -, hlast⟩ := (previous_of_visits hv).mp (congrArg Prod.fst hstep)
  have hfirst : l.operations[before.length]? = some first := by
    rw [operations_eq_map_unnumbered, List.getElem?_map, hlist]
    rfl
  rw [hj] at hlist hlist' hother hfirst
  refine ⟨j, hoperations ▸ hlast, hfirst, hoperations, ?_, fun i => ?_⟩
  · rw [sameBlock_succ_iff, hlist]
    simp
  · rw [sameBlock_succ_iff, sameBlock_succ_iff]
    by_cases hi : i = j
    · subst hi
      simp [hlist']
    · rw [hother _ fun heq => hi (Nat.succ.inj heq)]
      simp [hi]

end BlockLayout

/-! ## What the additional position gives -/

namespace ProcedureBody

variable {s : BuildSettings} {body body' : ProcedureBody} {i j k : Nat} {r : Reason}

/-- The rules give one reason more. -/
theorem Recut.gives_iff (h : body.Recut body') (hj : body.layout.JoinedAt body'.layout j) :
    body'.Gives s i k r ↔ body.Gives s i k r ∨
      s.includeSequencing = true ∧ i = j + 1 ∧ k = j ∧ r = .sequencing := by
  constructor
  · rintro (⟨hs, hblock⟩ | ⟨hd, hread, hwrite⟩)
    · rcases (hj.sameBlock k).mp hblock with rfl | hblock
      · exact Or.inr ⟨hs, rfl, rfl, rfl⟩
      · exact Or.inl (.sequencing hs hblock)
    · exact Or.inl (.data hd (h.readsAt.mp hread) (h.lastWrite.mp hwrite))
  · rintro ((⟨hs, hblock⟩ | ⟨hd, hread, hwrite⟩) | ⟨hs, rfl, rfl, rfl⟩)
    · exact .sequencing hs ((hj.sameBlock k).mpr (Or.inr hblock))
    · exact .data hd (h.readsAt.mpr hread) (h.lastWrite.mpr hwrite)
    · exact .sequencing hs ((hj.sameBlock k).mpr (Or.inl rfl))

section Build

variable {first last a b : OperationId} {g g' : DependencyGraph} {t t' : BuildTrace}
  (h : body.Recut body') (hj : body.layout.JoinedAt body'.layout j)
  (hlast : body.layout.operations[j]? = some last)
  (hfirst : body.layout.operations[j + 1]? = some first)

include h hj hlast hfirst in
/-- The graph of the joined body cites one reason more. -/
theorem Recut.cites_iff (hg : build s body = .ok g) (hg' : build s body' = .ok g') :
    g'.Cites a b r ↔
      s.includeSequencing = true ∧ a = first ∧ b = last ∧ r = .sequencing ∨ g.Cites a b r := by
  have hbound := (List.getElem?_eq_some_iff.mp hfirst).1
  obtain ⟨f, rfl, htracks⟩ := tracks_of_build hg
  obtain ⟨f', rfl, htracks'⟩ := tracks_of_build hg'
  rw [htracks.cites, htracks'.cites, h.operations]
  constructor
  · rintro ⟨i, k, hi, ha, hb, hgives⟩
    rcases (h.gives_iff hj).mp hgives with hgives | ⟨hs, rfl, rfl, rfl⟩
    · exact Or.inr ⟨i, k, hi, ha, hb, hgives⟩
    · rw [hfirst] at ha
      rw [hlast] at hb
      exact Or.inl ⟨hs, (Option.some.inj ha).symm, (Option.some.inj hb).symm, rfl⟩
  · rintro (⟨hs, rfl, rfl, rfl⟩ | ⟨i, k, hi, ha, hb, hgives⟩)
    · exact ⟨j + 1, j, hbound, hfirst, hlast, (h.gives_iff hj).mpr (Or.inr ⟨hs, rfl, rfl, rfl⟩)⟩
    · exact ⟨i, k, hi, ha, hb, (h.gives_iff hj).mpr (Or.inl hgives)⟩

include h hj hlast hfirst in
/-- **What is known of a pair** is the same, or one reason more if the rule is applied. -/
theorem Recut.edge?_eq (hg : build s body = .ok g) (hg' : build s body' = .ok g') :
    g'.edge? a b = if s.includeSequencing = true then
      (g.addDependency first last .sequencing).2.edge? a b else g.edge? a b := by
  have hcites := fun r => h.cites_iff (a := a) (b := b) (r := r) hj hlast hfirst hg hg'
  split
  · next hs =>
    refine DependencyGraph.edge?_eq_of_cites (coherent_of_build hg')
      ((coherent_of_build hg).addDependency first last .sequencing) fun r => ?_
    rw [hcites, DependencyGraph.cites_addDependency, and_iff_right hs]
  · next hs =>
    refine DependencyGraph.edge?_eq_of_cites (coherent_of_build hg') (coherent_of_build hg)
      fun r => ?_
    rw [hcites, or_iff_right fun hnew => hs hnew.1]

include hj hlast hfirst in
/-- Across the boundary the sequencing rule gives no reason as long as the blocks are apart. -/
theorem not_cites_sequencing (hg : build s body = .ok g) : ¬ g.Cites first last .sequencing := by
  rw [cites_iff_gives hg hfirst hlast]
  rintro ⟨_, hblock⟩
  exact hj.apart hblock

include h hj hlast hfirst in
/-- **One operation more** is bound to the one before it. -/
theorem Recut.previousInBlock_eq (hg : (buildWithTrace s body).result = .ok (g, t))
    (hg' : (buildWithTrace s body').result = .ok (g', t')) :
    t.previousInBlock.get? first = none ∧
      t'.previousInBlock = t.previousInBlock.insert first last := by
  have hnodup := nodup_of_build (build_of_result hg)
  have hbound := (List.getElem?_eq_some_iff.mp hfirst).1
  obtain ⟨f, rfl, rfl, -, -, hrecalls⟩ := findings_of_result hg
  obtain ⟨f', rfl, rfl, -, -, hrecalls'⟩ := findings_of_result hg'
  have hnone : f.trace.previousInBlock.get? first = none := by
    refine Option.eq_none_iff_forall_ne_some.mpr fun p hp => ?_
    obtain ⟨i, -, hblock, hat, -⟩ := (hrecalls.previousInBlock first p).mp hp
    cases BlockLayout.position_inj hnodup hat hfirst
    exact hj.apart hblock
  refine ⟨hnone, HandleMap.ext fun o => Option.ext fun p => ?_⟩
  have hinsert : (f.trace.previousInBlock.insert first last).get? o = some p ↔
      (o = first ∧ p = last) ∨ f.trace.previousInBlock.get? o = some p := by
    rw [HandleMap.get?_insert]
    by_cases ho : o = first
    · subst ho
      simp [hnone, eq_comm]
    · simp [ho]
  rw [hinsert, hrecalls.previousInBlock, hrecalls'.previousInBlock, h.operations]
  constructor
  · rintro ⟨i, hi, hblock, ho, hp⟩
    rcases (hj.sameBlock i).mp hblock with rfl | hblock
    · rw [hfirst] at ho
      rw [hlast] at hp
      exact Or.inl ⟨(Option.some.inj ho).symm, (Option.some.inj hp).symm⟩
    · exact Or.inr ⟨i, hi, hblock, ho, hp⟩
  · rintro (⟨rfl, rfl⟩ | ⟨i, hi, hblock, ho, hp⟩)
    · exact ⟨j, hbound, (hj.sameBlock j).mpr (Or.inl rfl), hfirst, hlast⟩
    · exact ⟨i, hi, (hj.sameBlock i).mpr (Or.inr hblock), ho, hp⟩

end Build

end ProcedureBody

/-! ## Joining two blocks -/

/-- What is found out when the boundary between two blocks is taken away, of which one ends with
the operation `last` and the next begins with `first`. -/
structure GainsBoundary (s : BuildSettings) (last first : OperationId) (g g' : DependencyGraph)
    (t t' : BuildTrace) : Prop where
  /-- The one operation is bound to the other, and there are no other changes. -/
  previousInBlock : t.previousInBlock.get? first = none ∧
    t'.previousInBlock = t.previousInBlock.insert first last
  /-- What is known of any other pair is the same. -/
  elsewhere : ∀ a b, (a, b) ≠ (first, last) → g'.edge? a b = g.edge? a b
  /-- Without the sequencing rule so is what is known of the pair. -/
  without : s.includeSequencing = false → g'.edge? first last = g.edge? first last
  /-- With it the pair is there by that rule alone, -/
  isNew : s.includeSequencing = true → g.edge? first last = none →
    g'.edge? first last = some ⟨.sequencing, HandleSet.empty⟩
  /-- or it was there by the data rule alone and is there by both, for the same symbols. -/
  isKnown : s.includeSequencing = true → ∀ p, g.edge? first last = some p →
    p.type = .data ∧ g'.edge? first last = some ⟨.both, p.symbols⟩

theorem ProcedureBody.Recut.gainsBoundary {s : BuildSettings} {body body' : ProcedureBody} {j : Nat}
    {first last : OperationId} {g g' : DependencyGraph} {t t' : BuildTrace}
    (h : body.Recut body') (hj : body.layout.JoinedAt body'.layout j)
    (hlast : body.layout.operations[j]? = some last)
    (hfirst : body.layout.operations[j + 1]? = some first)
    (hg : (buildWithTrace s body).result = .ok (g, t))
    (hg' : (buildWithTrace s body').result = .ok (g', t')) :
    GainsBoundary s last first g g' t t' := by
  have hedge := fun a b => h.edge?_eq (a := a) (b := b) hj hlast hfirst (build_of_result hg)
    (build_of_result hg')
  have hapart := ProcedureBody.not_cites_sequencing hj hlast hfirst (build_of_result hg)
  refine ⟨h.previousInBlock_eq hj hlast hfirst hg hg', fun a b hpair => ?_, fun hs => ?_,
    fun hs hnone => ?_, fun hs p hp => ?_⟩
  · rw [hedge, DependencyGraph.addDependency, DependencyGraph.edge?_alterDependency,
      if_neg (Ne.symm hpair), ite_self]
  · rw [hedge, if_neg (by simp [hs])]
  · rw [hedge, if_pos hs, DependencyGraph.addDependency, DependencyGraph.edge?_alterDependency,
      if_pos rfl, hnone]
    rfl
  · have htype : p.type = .data := by
      have hnot : ¬ p.type.includesSequencing = true := fun hrule => hapart ⟨p, hp, hrule⟩
      cases htype : p.type <;> simp_all [DependencyType.includesSequencing]
    refine ⟨htype, ?_⟩
    rw [hedge, if_pos hs, DependencyGraph.addDependency, DependencyGraph.edge?_alterDependency,
      if_pos rfl, hp, Option.elim_some, Provenance.record, htype]
    rfl

/-- Two blocks as one, with a number of its own. -/
def BasicBlock.join (A B : BasicBlock) (ordinal : UInt64) : BasicBlock :=
  ⟨ordinal, A.operations ++ B.operations⟩

/-- A body with other blocks. -/
def ProcedureBody.withBlocks (body : ProcedureBody) (blocks : List BasicBlock) : ProcedureBody :=
  { body with layout := ⟨blocks⟩ }

section Join

variable {body : ProcedureBody} {before after : List BasicBlock} {A B : BasicBlock}
  {ordinal : UInt64}

theorem ProcedureBody.Recut.join (h : body.layout.blocks = before ++ A :: B :: after) :
    body.Recut (body.withBlocks (before ++ A.join B ordinal :: after)) where
  name := rfl
  store := rfl
  operations := by simp [withBlocks, BlockLayout.operations, BasicBlock.join, h]

/-- Joining two blocks leads from the last operation of the one to what the other begins with. -/
theorem ProcedureBody.exists_unnumbered_visits (ordinal : UInt64)
    (h : body.layout.blocks = before ++ A :: B :: after) :
    ∃ earlier later,
      body.layout.visits.map Visit.unnumbered
        = earlier ++ (BasicBlock.steps none B.operations ++ later) ∧
      (body.withBlocks (before ++ A.join B ordinal :: after)).layout.visits.map Visit.unnumbered
        = earlier ++ (BasicBlock.steps A.operations.getLast? B.operations ++ later) := by
  refine ⟨(before.map (·.operations)).flatMap (BasicBlock.steps none)
      ++ BasicBlock.steps none A.operations,
    (after.map (·.operations)).flatMap (BasicBlock.steps none), ?_, ?_⟩
  · simp [BlockLayout.unnumbered_visits, h]
  · simp [BlockLayout.unnumbered_visits, withBlocks, BasicBlock.join, BasicBlock.steps_append]

/-- **Where a block ends is noticed in one place.**  A body and the one with two adjacent blocks
joined either both fail, with errors that differ in the number of a block at most, or both have a
graph.  The graphs have the same nodes, and the last writers and the unresolved targets are the
same.  If one of the blocks is empty, graphs and traces are the same altogether.  Otherwise the
first operation of the later block is bound to the last one of the earlier block, and the pair of
the two gains the sequencing rule if that is applied; all else is the same. -/
theorem build_of_join (h : body.layout.blocks = before ++ A :: B :: after) (s : BuildSettings)
    (ordinal : UInt64) :
    (∃ e e', (buildWithTrace s body).result = .error e ∧
      (buildWithTrace s (body.withBlocks (before ++ A.join B ordinal :: after))).result
        = .error e' ∧
      e.unnumbered = e'.unnumbered) ∨
    ∃ g t g' t', (buildWithTrace s body).result = .ok (g, t) ∧
      (buildWithTrace s (body.withBlocks (before ++ A.join B ordinal :: after))).result
        = .ok (g', t') ∧
      g'.functionId = g.functionId ∧ g'.nodes = g.nodes ∧ t'.lastWriter = t.lastWriter ∧
      t'.unresolvedTargets = t.unresolvedTargets ∧
      (A.operations = [] ∨ B.operations = [] → g' = g ∧ t' = t) ∧
      ∀ last first, A.operations.getLast? = some last → B.operations.head? = some first →
        GainsBoundary s last first g g' t t' := by
  have hcut : body.Recut (body.withBlocks (before ++ A.join B ordinal :: after)) := .join h
  obtain ⟨earlier, later, hvisits, hvisits'⟩ :=
    ProcedureBody.exists_unnumbered_visits ordinal h
  rcases hcut.outcome s with herror | ⟨g, t, g', t', hg, hg'⟩
  · exact Or.inl herror
  obtain ⟨hname, hnodes, hlastWriter, hunresolved⟩ := hcut.found hg hg'
  refine Or.inr ⟨g, t, g', t', hg, hg', hname, hnodes, hlastWriter, hunresolved, fun hempty => ?_,
    fun last first hlast hfirst => ?_⟩
  · refine hcut.eq_of_visits ?_ hg hg'
    rw [hvisits, hvisits']
    rcases hempty with hA | hB
    · rw [hA]
      rfl
    · rw [hB]
      rfl
  · obtain ⟨rest, hB⟩ := List.head?_eq_some_iff.mp hfirst
    rw [hB] at hvisits hvisits'
    rw [hlast] at hvisits'
    obtain ⟨j, hj, hj', hjoined⟩ := BlockLayout.exists_joinedAt hvisits hvisits'
    exact hcut.gainsBoundary hjoined hj hj' hg hg'

/-- The operations of `sharedNumbers` in blocks of which the first two end and begin with a write of
a local variable and a read of it. -/
def severedNumbers : ProcedureBody :=
  sharedNumbers.withBlocks [⟨4, [⟨0⟩]⟩, ⟨4, [⟨1⟩, ⟨2⟩]⟩, ⟨0, [⟨3⟩]⟩]

theorem build_of_join_severedNumbers :
    severedNumbers.layout.blocks = [] ++ ⟨4, [⟨0⟩]⟩ :: ⟨4, [⟨1⟩, ⟨2⟩]⟩ :: [⟨0, [⟨3⟩]⟩] ∧
    ∃ g t g' t', (buildWithTrace {} severedNumbers).result = .ok (g, t) ∧
      (buildWithTrace {} (severedNumbers.withBlocks [⟨9, [⟨0⟩, ⟨1⟩, ⟨2⟩]⟩, ⟨0, [⟨3⟩]⟩])).result
        = .ok (g', t') ∧
      g'.nodes = g.nodes ∧ g.edge? ⟨1⟩ ⟨0⟩ = some ⟨.data, .ofList [⟨0⟩]⟩ ∧
      g'.edge? ⟨1⟩ ⟨0⟩ = some ⟨.both, .ofList [⟨0⟩]⟩ ∧
      t'.previousInBlock = t.previousInBlock.insert ⟨1⟩ ⟨0⟩ := by
  have hok : (buildWithTrace {} severedNumbers).result.isOk = true := by decide +kernel
  have hedge : ((buildWithTrace {} severedNumbers).result.toOption.bind (·.1.edge? ⟨1⟩ ⟨0⟩))
      = some ⟨.data, .ofList [⟨0⟩]⟩ := by decide +kernel
  have hblocks : severedNumbers.layout.blocks
      = [] ++ ⟨4, [⟨0⟩]⟩ :: ⟨4, [⟨1⟩, ⟨2⟩]⟩ :: [⟨0, [⟨3⟩]⟩] := rfl
  refine ⟨hblocks, ?_⟩
  rcases build_of_join hblocks {} 9 with
    ⟨e, e', he, -⟩ | ⟨g, t, g', t', hg, hg', -, hnodes, -, -, -, hgains⟩
  · rw [he] at hok
    cases hok
  · rw [hg] at hedge
    have hboundary := hgains ⟨0⟩ ⟨1⟩ rfl rfl
    exact ⟨g, t, g', t', hg, hg', hnodes, hedge, (hboundary.isKnown rfl _ hedge).2,
      hboundary.previousInBlock.2⟩

end Join

end ProgramSlice
