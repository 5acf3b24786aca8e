import ProgramSlice.Proofs.Build.Edges
import ProgramSlice.Proofs.Graph.Reachability

/-!
# Leaving a rule out

A rule can be left out in two places: a build may not apply it, and a slice may not follow it.  The
two have nothing in common but their effect.  A build that leaves a rule out never records its
reasons; a slice that leaves it out looks at the type of each edge, where both rules may have been
merged.

What brings them together is the view of a graph as the reasons that it cites.  A built graph cites
the reasons that the rules give for a body, those of the rules that the build applies
(`cites_iff_depends`), and a slice follows an edge if it cites a reason of a rule that the slice
chooses (`links_iff_cites`).  So a slice of a built graph depends on the rules that are both applied
and chosen, wherever the others were left out (`slice_eq_of_rules`).
-/

namespace ProgramSlice

/-- A filter chooses the reasons of its rules. -/
def RuleFilter.chooses (f : RuleFilter) : Reason → Bool
  | .sequencing => f.sequencing
  | .data _ => f.data

/-- The rules that a build applies. -/
def BuildSettings.rules (s : BuildSettings) : RuleFilter := ⟨s.includeSequencing, s.includeData⟩

/-! ## What a slice follows -/

namespace DependencyGraph

variable {g : DependencyGraph} {f : RuleFilter} {a b : OperationId}

/-- In a coherent graph a slice follows the edges that cite a reason of a chosen rule. -/
theorem links_iff_cites (hg : g.WellFormed) (hcoherent : g.Coherent) :
    g.Links f a b ↔ ∃ r, f.chooses r = true ∧ g.Cites a b r := by
  constructor
  · rintro ⟨p, he, hrule⟩
    have hp := hg.mem_edges.mp he
    rcases hrule with ⟨hf, hs⟩ | ⟨hf, hd⟩
    · exact ⟨.sequencing, hf, p, hp, hs⟩
    · -- the type tells of data, so there is a symbol that the graph cites
      obtain ⟨symbol, hsymbol⟩ := (hcoherent a b p hp).includesData_iff.mp hd
      exact ⟨.data symbol, hf, p, hp, hsymbol⟩
  · rintro ⟨r, hf, p, hp, hr⟩
    refine ⟨p, hg.mem_edges.mpr hp, ?_⟩
    cases r with
    | sequencing => exact Or.inl ⟨hf, hr⟩
    | data symbol => exact Or.inr ⟨hf, (hcoherent a b p hp).includesData_iff.mpr ⟨symbol, hr⟩⟩

end DependencyGraph

/-! ## What a build records -/

section Build

variable {s s' : BuildSettings} {body : ProcedureBody} {g g' : DependencyGraph} {f f' : RuleFilter}
  {a b o : OperationId} {r : Reason} {i j : Nat} {d : Direction} {limit : Option Nat}

/-- The reasons that a rule gives do not depend on what else a build applies. -/
theorem ProcedureBody.gives_iff :
    body.Gives s i j r ↔ s.rules.chooses r = true ∧ body.Gives {} i j r := by
  constructor
  · rintro (⟨hs, hblock⟩ | ⟨hd, hread, hwrite⟩)
    · exact ⟨hs, .sequencing rfl hblock⟩
    · exact ⟨hd, .data rfl hread hwrite⟩
  · rintro ⟨hs, ⟨_, hblock⟩ | ⟨_, hread, hwrite⟩⟩
    · exact .sequencing hs hblock
    · exact .data hs hread hwrite

/-- The rules give a reason why an operation of a body depends on another. -/
def ProcedureBody.Depends (body : ProcedureBody) (a b : OperationId) (r : Reason) : Prop :=
  ∃ i j : Nat, body.layout.operations[i]? = some a ∧ body.layout.operations[j]? = some b ∧
    body.Gives {} i j r

/-- **A built graph cites** the reasons of the rules that were applied. -/
theorem cites_iff_depends (h : build s body = .ok g) :
    g.Cites a b r ↔ s.rules.chooses r = true ∧ body.Depends a b r := by
  obtain ⟨f, rfl, htracks⟩ := tracks_of_build h
  rw [htracks.cites]
  constructor
  · rintro ⟨i, j, _, ha, hb, hgives⟩
    obtain ⟨hs, hdefault⟩ := ProcedureBody.gives_iff.mp hgives
    exact ⟨hs, i, j, ha, hb, hdefault⟩
  · rintro ⟨hs, i, j, ha, hb, hdefault⟩
    exact ⟨i, j, (List.getElem?_eq_some_iff.mp ha).1, ha, hb,
      ProcedureBody.gives_iff.mpr ⟨hs, hdefault⟩⟩

/-- A slice of a built graph follows what the rules give that are both applied and chosen. -/
theorem links_iff_depends (h : build s body = .ok g) :
    g.Links f a b ↔ ∃ r, (s.rules.chooses r && f.chooses r) = true ∧ body.Depends a b r := by
  rw [DependencyGraph.links_iff_cites (wellFormed_of_build h) (coherent_of_build h)]
  refine exists_congr fun r => ?_
  rw [cites_iff_depends h, Bool.and_eq_true, ← and_assoc, and_comm (a := f.chooses r = true)]

/-- **Slices of two builds of a body are equal** if the same rules are applied and chosen. -/
theorem slice_eq_of_rules (h : build s body = .ok g) (h' : build s' body = .ok g')
    (hrules : ∀ r, (s.rules.chooses r && f.chooses r) = (s'.rules.chooses r && f'.chooses r)) :
    g.slice ⟨d, f, limit⟩ o = g'.slice ⟨d, f', limit⟩ o := by
  refine DependencyGraph.slice_congr ?_ fun a b => ?_
  · rw [nodes_of_build h, nodes_of_build h']
  · rw [links_iff_depends h, links_iff_depends h']
    simp only [hrules]

/-- Whether a body builds does not depend on the rules, but on the number of operations allowed. -/
theorem exists_build_of_maxNodes (h : build s body = .ok g) (hmax : s'.maxNodes = s.maxNodes) :
    ∃ g', build s' body = .ok g' := by
  have hfaulty : ∀ k, body.Faulty s' k ↔ body.Faulty s k := by
    intro k
    rw [ProcedureBody.Faulty, ProcedureBody.Faulty, hmax]
  obtain ⟨f, hf, _⟩ := build_of_clean fun k => mt (hfaulty k).mp (clean_of_build h k)
  exact ⟨f.graph, hf⟩

end Build

/-- **Leaving a rule out of a slice is leaving it out of the build.**  If a body builds with both
rules, it builds with each of them alone, and the settings for that are accepted if those for both
rules are.  The slices by one rule of the graph with both rules are the slices of the graph with
that rule alone, backward and forward, from every operation and for every limit. -/
theorem slices_without_rule {body : ProcedureBody} {maxNodes : UInt64} {g : DependencyGraph}
    (h : build ⟨true, true, maxNodes⟩ body = .ok g) :
    ∃ dataOnly sequencingOnly,
      build ⟨false, true, maxNodes⟩ body = .ok dataOnly ∧
      build ⟨true, false, maxNodes⟩ body = .ok sequencingOnly ∧
      BuildSettings.check ⟨false, true, maxNodes⟩ = BuildSettings.check ⟨true, true, maxNodes⟩ ∧
      BuildSettings.check ⟨true, false, maxNodes⟩ = BuildSettings.check ⟨true, true, maxNodes⟩ ∧
      ∀ (o : OperationId) (limit : Option Nat),
        g.thinSlice o limit = dataOnly.backwardSlice o limit ∧
        g.backwardSliceFiltered o limit ⟨true, false⟩ = sequencingOnly.backwardSlice o limit ∧
        g.forwardSliceFiltered o limit ⟨false, true⟩ = dataOnly.forwardSlice o limit ∧
        g.forwardSliceFiltered o limit ⟨true, false⟩ = sequencingOnly.forwardSlice o limit := by
  obtain ⟨dataOnly, hdata⟩ : ∃ g', build ⟨false, true, maxNodes⟩ body = .ok g' :=
    exists_build_of_maxNodes h rfl
  obtain ⟨sequencingOnly, hsequencing⟩ : ∃ g', build ⟨true, false, maxNodes⟩ body = .ok g' :=
    exists_build_of_maxNodes h rfl
  refine ⟨dataOnly, sequencingOnly, hdata, hsequencing, rfl, rfl, fun o limit => ⟨?_, ?_, ?_, ?_⟩⟩
  · exact slice_eq_of_rules h hdata fun r => by cases r <;> rfl
  · exact slice_eq_of_rules h hsequencing fun r => by cases r <;> rfl
  · exact slice_eq_of_rules h hdata fun r => by cases r <;> rfl
  · exact slice_eq_of_rules h hsequencing fun r => by cases r <;> rfl

theorem slices_without_rule_sharedNumbers :
    ∃ g dataOnly, build ⟨true, true, 4⟩ sharedNumbers = .ok g ∧
      build ⟨false, true, 4⟩ sharedNumbers = .ok dataOnly ∧
      g.thinSlice ⟨3⟩ (some 1) = dataOnly.backwardSlice ⟨3⟩ (some 1) := by
  have hok : (build ⟨true, true, 4⟩ sharedNumbers).isOk = true := by decide +kernel
  cases hg : build ⟨true, true, 4⟩ sharedNumbers with
  | error e =>
      rw [hg] at hok
      cases hok
  | ok g =>
      obtain ⟨dataOnly, _, hdata, _, _, _, hslices⟩ := slices_without_rule hg
      exact ⟨g, dataOnly, rfl, hdata, (hslices ⟨3⟩ (some 1)).1⟩

end ProgramSlice
