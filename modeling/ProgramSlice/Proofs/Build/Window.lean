import ProgramSlice.Proofs.Build.Toggles
import ProgramSlice.Proofs.Graph.Duality

/-!
# Slices along a block

Under the sequencing rule alone, the operations of a block depend on each other in a row.  A slice
that follows only this rule walks along the row: backwards to the operations before, forwards to
those behind, one operation a step.  So it is a *window* of the block, from the operation to the
place where the limit or the block ends (`sequencing_slices_windows`).

The built graph also has the edges of the data rule, which lead from any block to any other, and a
pair that both rules hit is one edge.  What the slice follows of all this is exactly the row, since
an edge is followed if the sequencing rule gives a reason for it (`links_sequencing_iff`).
-/

namespace ProgramSlice

variable {s : BuildSettings} {body : ProcedureBody} {g : DependencyGraph} {a b o n : OperationId}
  {k i m : Nat}

/-- What stands in a block of a body that builds is a node. -/
theorem BlockLayout.StandsAt.mem_nodes (ho : body.layout.StandsAt k i o)
    (h : build s body = .ok g) : o ∈ g.nodes := by
  rw [nodes_of_build h]
  exact ho.mem_operations

section Paths

variable (h : build s body = .ok g) (hs : s.includeSequencing = true)

include h hs

/-- By the sequencing rule an operation depends on the one at the place before in its block. -/
theorem links_sequencing_iff : g.Links ⟨true, false⟩ a b ↔
    ∃ k i, body.layout.StandsAt k (i + 1) a ∧ body.layout.StandsAt k i b := by
  rw [links_iff_depends h, ← BlockLayout.exists_sameBlock_succ_iff]
  constructor
  · rintro ⟨r, hrule, i, j, ha, hb, hgives⟩
    cases hgives with
    | sequencing _ hblock => exact ⟨j, hblock, ha, hb⟩
    | data => simp [RuleFilter.chooses] at hrule
  · rintro ⟨j, hblock, ha, hb⟩
    refine ⟨.sequencing, ?_, j + 1, j, ha, hb, .sequencing rfl hblock⟩
    simp [RuleFilter.chooses, BuildSettings.rules, hs]

/-- **A path along a block** leads back by one place with every step, and stays in the block. -/
theorem path_sequencing_iff (ho : o ∈ body.layout.operations) :
    g.Path .backward ⟨true, false⟩ m o n ↔
      ∃ k i, body.layout.StandsAt k (i + m) o ∧ body.layout.StandsAt k i n := by
  have hnodup := nodup_of_build h
  constructor
  · intro hpath
    induction hpath with
    | nil o =>
        obtain ⟨k, i, hi⟩ := BlockLayout.exists_standsAt ho
        exact ⟨k, i, hi, hi⟩
    | @snoc m o e _ he hrule ih =>
        obtain ⟨k, i, hstart, hdependent⟩ := ih ho
        obtain ⟨k', i', hdependent', hdependency⟩ :=
          (links_sequencing_iff h hs).mp ⟨e.provenance, he, hrule⟩
        -- the dependent stands at one place only
        obtain ⟨rfl, rfl⟩ := hdependent.unique hnodup hdependent'
        refine ⟨k, i', ?_, hdependency⟩
        rwa [Nat.add_right_comm] at hstart
  · rintro ⟨k, i, hstart, hn⟩
    induction m generalizing i n with
    | zero =>
        obtain rfl := hstart.eq hn
        exact .nil o
    | succ m ih =>
        rw [← Nat.add_assoc, Nat.add_right_comm] at hstart
        obtain ⟨c, hc⟩ := hstart.exists_of_le (Nat.le_add_right (i + 1) m)
        obtain ⟨p, he, hrule⟩ := (links_sequencing_iff h hs).mpr ⟨k, i, hc, hn⟩
        exact .snoc (e := ⟨c, n, p⟩) (ih (i + 1) hstart hc) he hrule

/-! ## Windows -/

variable (ho : body.layout.StandsAt k i o) (limit : Option Nat)

include ho

theorem mem_backward_window : n ∈ g.backwardSliceFiltered o limit ⟨true, false⟩ ↔
    ∃ j, (∀ d ∈ limit, i - d ≤ j) ∧ j ≤ i ∧ body.layout.StandsAt k j n := by
  have hnode := ho.mem_nodes h
  rw [DependencyGraph.backwardSliceFiltered, DependencyGraph.mem_slice, and_iff_right hnode]
  simp only [SliceQuery.Follows, path_sequencing_iff h hs ho.mem_operations]
  constructor
  · rintro ⟨m, hm, k', j, hstart, hn⟩
    obtain ⟨rfl, rfl⟩ := ho.unique (nodup_of_build h) hstart
    refine ⟨j, fun d hd => ?_, Nat.le_add_right j m, hn⟩
    have := hm d hd
    omega
  · rintro ⟨j, hd, hji, hn⟩
    obtain ⟨m, rfl⟩ := Nat.exists_eq_add_of_le hji
    refine ⟨m, fun d hlimit => ?_, k, j, ho, hn⟩
    have := hd d hlimit
    omega

/-- The forward slice follows the same row from its other end. -/
theorem mem_forward_window : n ∈ g.forwardSliceFiltered o limit ⟨true, false⟩ ↔
    ∃ j, i ≤ j ∧ (∀ d ∈ limit, j ≤ i + d) ∧ body.layout.StandsAt k j n := by
  have hnode := ho.mem_nodes h
  rw [DependencyGraph.forwardSliceFiltered, DependencyGraph.mem_slice, and_iff_right hnode]
  simp only [SliceQuery.Follows, DependencyGraph.path_forward_iff]
  constructor
  · rintro ⟨m, hm, hpath⟩
    have hn : n ∈ body.layout.operations := by
      rw [← nodes_of_build h]
      exact hpath.reverse.mem_nodes (wellFormed_of_build h) hnode
    obtain ⟨k', i', hn, hstart⟩ := (path_sequencing_iff h hs hn).mp hpath
    obtain ⟨rfl, rfl⟩ := ho.unique (nodup_of_build h) hstart
    refine ⟨i + m, Nat.le_add_right i m, fun d hd => ?_, hn⟩
    have := hm d hd
    omega
  · rintro ⟨j, hij, hd, hn⟩
    obtain ⟨m, rfl⟩ := Nat.exists_eq_add_of_le hij
    refine ⟨m, fun d hlimit => ?_, (path_sequencing_iff h hs hn.mem_operations).mpr ⟨k, i, hn, ho⟩⟩
    have := hd d hlimit
    omega

end Paths

/-- **Slices by the sequencing rule are windows of a block.**  Take an operation at the place `i` of
a block of a body that builds with this rule, whether or not it builds with the data rule.  The
backward slice by the sequencing rule holds the operations of the block from `i - d` to `i`, where
`d` is the limit, and the forward slice those from `i` to `i + d`, as far as the block goes.
Without a limit they go to the ends of the block.  An operation of another block is in neither of
them. -/
theorem sequencing_slices_windows (h : build s body = .ok g) (hs : s.includeSequencing = true)
    (ho : body.layout.StandsAt k i o) (limit : Option Nat) :
    (∀ n, n ∈ g.backwardSliceFiltered o limit ⟨true, false⟩ ↔
      ∃ j, (∀ d ∈ limit, i - d ≤ j) ∧ j ≤ i ∧ body.layout.StandsAt k j n) ∧
    (∀ n, n ∈ g.forwardSliceFiltered o limit ⟨true, false⟩ ↔
      ∃ j, i ≤ j ∧ (∀ d ∈ limit, j ≤ i + d) ∧ body.layout.StandsAt k j n) ∧
    ∀ k' j n, body.layout.StandsAt k' j n →
      n ∈ g.backwardSliceFiltered o limit ⟨true, false⟩ ∨
        n ∈ g.forwardSliceFiltered o limit ⟨true, false⟩ → k' = k := by
  have hbackward := fun n => mem_backward_window (n := n) h hs ho limit
  have hforward := fun n => mem_forward_window (n := n) h hs ho limit
  refine ⟨hbackward, hforward, fun k' j n hn hmem => ?_⟩
  -- what is in a slice stands in this block, and it stands at one place only
  obtain ⟨j', hn'⟩ : ∃ j', body.layout.StandsAt k j' n := by
    rcases hmem with hmem | hmem
    · obtain ⟨j', -, -, hn'⟩ := (hbackward n).mp hmem
      exact ⟨j', hn'⟩
    · obtain ⟨j', -, -, hn'⟩ := (hforward n).mp hmem
      exact ⟨j', hn'⟩
  exact (hn.unique (nodup_of_build h) hn').1

/-- The last operation also depends on one of another block, by the data rule. -/
theorem sequencing_slices_windows_sharedNumbers :
    ∃ g, build {} sharedNumbers = .ok g ∧ sharedNumbers.layout.StandsAt 2 1 ⟨3⟩ ∧
      ⟨2⟩ ∈ g.backwardSliceFiltered ⟨3⟩ (some 1) ⟨true, false⟩ ∧
      ⟨1⟩ ∈ g.thinSlice ⟨3⟩ (some 1) ∧
      ⟨1⟩ ∉ g.backwardSliceFiltered ⟨3⟩ none ⟨true, false⟩ := by
  have hthin : ((build {} sharedNumbers).toOption.any fun g =>
      ⟨1⟩ ∈ g.thinSlice ⟨3⟩ (some 1)) = true := by decide +kernel
  have hlast : sharedNumbers.layout.StandsAt 2 1 ⟨3⟩ := ⟨_, rfl, rfl⟩
  have hbefore : sharedNumbers.layout.StandsAt 2 0 ⟨2⟩ := ⟨_, rfl, rfl⟩
  have hother : sharedNumbers.layout.StandsAt 0 1 ⟨1⟩ := ⟨_, rfl, rfl⟩
  obtain ⟨g, hg, hthin⟩ := exists_ok_of_any hthin
  obtain ⟨hbackward, -, -⟩ := sequencing_slices_windows hg rfl hlast (some 1)
  obtain ⟨-, -, hblock⟩ := sequencing_slices_windows hg rfl hlast none
  refine ⟨g, hg, hlast, (hbackward _).mpr ⟨0, by simp, by omega, hbefore⟩, of_decide_eq_true hthin,
    fun hmem => ?_⟩
  exact absurd (hblock 0 1 ⟨1⟩ hother (Or.inl hmem)) (by decide)

end ProgramSlice
