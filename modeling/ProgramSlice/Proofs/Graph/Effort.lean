import ProgramSlice.Proofs.Graph.Reachability
import ProgramSlice.Proofs.Graph.Slices
import ProgramSlice.Proofs.Graph.Views

/-!
# What a search costs

A search ends, and neither the number of its steps nor the distances that it counts get out of hand.

* **Steps.**  Each step takes an entry from the frontier.  An operation may wait there several
  times, so neither the frontier nor the number of visited operations tells when the search is over.
  But entries are put there only for edges that leave an operation visited for the first time.  So
  there are no more of them than edges, and one for the start (`exists_iterate_eq_run`, from the
  measure that a step lessens).
* **Distances.**  An entry is one step further away than an operation that was visited when it was
  put into the frontier.  So its distance is at most the number of operations visited by now, and
  these are different nodes (`Search.Counted`).
* **Limits.**  An entry that is as far away as there are nodes comes when all nodes are visited, and
  is dropped whether or not it is within the limit.  So no limit from the number of nodes less one
  on makes a difference, at any step (`Search.Counted.step_eq`).
-/

namespace ProgramSlice

namespace Search

variable {q q' : SliceQuery} {g : DependencyGraph} {o x : OperationId} {d n : Nat} {s : Search}

/-! ## Steps -/

/-- In the beginning there is one entry, and every edge is still open. -/
theorem work_start (q : SliceQuery) (g : DependencyGraph) (o : OperationId) :
    (start o).work q g = g.edgeCount + 1 := by
  simp [work, start, openEdges, DependencyGraph.edgeCount, Nat.add_comm]

/-- **A search ends** after no more steps than it has work to do, and not before its frontier is
empty. -/
theorem exists_iterate_eq_run (q : SliceQuery) (g : DependencyGraph) (s : Search) :
    ∃ n ≤ s.work q g, (step q g)^[n] s = s.run q g ∧ (s.run q g).frontier = [] ∧
      ∀ m < n, ((step q g)^[m] s).frontier ≠ [] := by
  induction s using Search.run.induct q g with
  | case1 s hdone =>
      rw [run, dif_pos hdone]
      exact ⟨0, Nat.zero_le _, rfl, hdone, fun m hm => absurd hm (Nat.not_lt_zero m)⟩
  | case2 s hmore ih =>
      obtain ⟨n, hn, heq, hdone, hearlier⟩ := ih
      rw [run, dif_neg hmore]
      have hless := work_step_lt q g hmore
      refine ⟨n + 1, by omega, heq, hdone, fun m hm => ?_⟩
      cases m with
      | zero => exact hmore
      | succ m => exact hearlier m (by omega)

/-- What each step keeps, every number of steps keeps. -/
theorem iterate_induction {P : Search → Prop} (hs : P s) (hstep : ∀ s, P s → P (s.step q g))
    (n : Nat) : P ((step q g)^[n] s) := by
  induction n generalizing s with
  | zero => exact hs
  | succ n ih => exact ih (hstep s hs)

/-- Queries that take the same steps from every state of a kind that steps keep take the same
steps all along. -/
theorem iterate_congr {P : Search → Prop} (hs : P s) (hstep : ∀ s, P s → P (s.step q g))
    (hsame : ∀ s, P s → s.step q' g = s.step q g) (n : Nat) :
    (step q' g)^[n] s = (step q g)^[n] s := by
  induction n generalizing s with
  | zero => rfl
  | succ n ih =>
      show (step q' g)^[n] (s.step q' g) = (step q g)^[n] (s.step q g)
      rw [hsame s hs]
      exact ih (hstep s hs)

/-- The end of a search is the state with an empty frontier that steps lead to. -/
theorem run_eq_of_iterate (h : ((step q g)^[n] s).frontier = []) :
    s.run q g = (step q g)^[n] s := by
  induction n generalizing s with
  | zero =>
      have hdone : s.frontier = [] := h
      rw [run, dif_pos hdone]
      rfl
  | succ n ih =>
      by_cases hdone : s.frontier = []
      · have hstay : s.step q g = s := by simp [step, hdone]
        rw [Function.iterate_succ_apply, hstay] at h ⊢
        exact ih h
      · rw [run, dif_neg hdone]
        exact ih h

/-! ## Distances -/

/-- What holds of the numbers in a search at every moment. -/
structure Counted (g : DependencyGraph) (s : Search) : Prop where
  /-- No operation is visited twice. -/
  visited_nodup : s.visited.Nodup
  /-- Nodes are visited. -/
  visited_mem : ∀ v ∈ s.visited, v ∈ g.nodes
  /-- Nodes wait to be visited. -/
  frontier_mem : ∀ entry ∈ s.frontier, entry.1 ∈ g.nodes
  /-- What waits is no further away than there are visited operations. -/
  distance_le : ∀ entry ∈ s.frontier, entry.2 ≤ s.visited.length

namespace Counted

theorem start (ho : o ∈ g.nodes) : Counted g (start o) where
  visited_nodup := List.nodup_nil
  visited_mem := by simp [Search.start]
  frontier_mem := by
    intro entry hentry
    obtain rfl := List.mem_singleton.mp hentry
    exact ho
  distance_le := by
    intro entry hentry
    obtain rfl := List.mem_singleton.mp hentry
    exact Nat.zero_le _

/-- There are no more visited operations than nodes. -/
theorem length_visited_le (h : Counted g s) : s.visited.length ≤ g.nodeCount :=
  (h.visited_nodup.subperm h.visited_mem).length_le

/-- When as many operations are visited as there are nodes, every node is. -/
theorem mem_visited (h : Counted g s) (hall : g.nodeCount ≤ s.visited.length) (hx : x ∈ g.nodes) :
    x ∈ s.visited :=
  ((h.visited_nodup.subperm h.visited_mem).perm_of_length_le hall).mem_iff.mpr hx

variable {rest : List (OperationId × Nat)} {visited : List OperationId}

/-- Dropping an entry. -/
theorem drop (h : Counted g ⟨(x, d) :: rest, visited⟩) : Counted g ⟨rest, visited⟩ where
  visited_nodup := h.visited_nodup
  visited_mem := h.visited_mem
  frontier_mem := fun entry hentry => h.frontier_mem entry (List.mem_cons_of_mem _ hentry)
  distance_le := fun entry hentry => h.distance_le entry (List.mem_cons_of_mem _ hentry)

/-- Visiting an operation: there is one more visited operation, and what it leads to is one step
further away than it was. -/
theorem visit (hg : g.WellFormed) (h : Counted g ⟨(x, d) :: rest, visited⟩) (hx : x ∉ visited) :
    Counted g ⟨rest ++ found q g x d visited, x :: visited⟩ := by
  have hnode : x ∈ g.nodes := h.frontier_mem (x, d) List.mem_cons_self
  have hd : d ≤ visited.length := h.distance_le (x, d) List.mem_cons_self
  constructor
  case visited_nodup => exact List.nodup_cons.mpr ⟨hx, h.visited_nodup⟩
  case visited_mem => exact List.forall_mem_cons.mpr ⟨hnode, h.visited_mem⟩
  case frontier_mem =>
    intro a ha
    rcases List.mem_append.mp ha with ha | ha
    · exact h.frontier_mem a (List.mem_cons_of_mem _ ha)
    · have hpath : q.Follows g 1 x a.1 := .next (.nil x) (of_mem_found ha).1
      exact hpath.mem_nodes hg hnode
  case distance_le =>
    intro a ha
    rw [List.length_cons]
    rcases List.mem_append.mp ha with ha | ha
    · exact (h.distance_le a (List.mem_cons_of_mem _ ha)).trans (Nat.le_succ _)
    · rw [(of_mem_found ha).2]
      exact Nat.succ_le_succ hd

/-- **A step keeps count.** -/
theorem step (hg : g.WellFormed) (h : Counted g s) : Counted g (s.step q g) := by
  obtain ⟨frontier, visited⟩ := s
  cases frontier with
  | nil => exact h
  | cons entry rest =>
      obtain ⟨x, d⟩ := entry
      rcases visit_or_drop q d x visited with ⟨hd, hx⟩ | hdrop
      · rw [step_of_visit hd hx]
        exact h.visit hg hx
      · rw [step_of_drop hdrop]
        exact h.drop

/-- At no moment is an entry further away than there are nodes. -/
theorem distance_le_nodeCount (h : Counted g s) {entry : OperationId × Nat}
    (hentry : entry ∈ s.frontier) : entry.2 ≤ g.nodeCount :=
  (h.distance_le entry hentry).trans h.length_visited_le

/-! ## Limits -/

/-- **A limit from the number of nodes less one on makes no difference** to a step: an entry beyond
it comes when every node is visited. -/
theorem step_eq (h : Counted g s) (hlimit : ∀ m ∈ q.limit, g.nodeCount ≤ m + 1) :
    s.step q g = s.step { q with limit := none } g := by
  obtain ⟨frontier, visited⟩ := s
  cases frontier with
  | nil => rfl
  | cons entry rest =>
      obtain ⟨x, d⟩ := entry
      have hfree : SliceQuery.allows { q with limit := none } d = true := rfl
      rcases visit_or_drop q d x visited with ⟨hd, hx⟩ | hfar | hx
      · rw [step_of_visit hd hx, step_of_visit hfree hx]
        rfl
      · -- beyond the limit, where nothing is left to be visited
        obtain ⟨m, hm, hlt⟩ : ∃ m ∈ q.limit, m < d := by
          rw [← Bool.not_eq_true, SliceQuery.allows_iff] at hfar
          push Not at hfar
          exact hfar
        have hall : g.nodeCount ≤ visited.length :=
          (hlimit m hm).trans (hlt.trans_le (h.distance_le (x, d) List.mem_cons_self))
        have hx := h.mem_visited hall (h.frontier_mem (x, d) List.mem_cons_self)
        rw [step_of_drop (Or.inr hx), step_of_drop (Or.inr hx)]
      · rw [step_of_drop (Or.inr hx), step_of_drop (Or.inr hx)]

end Counted

/-! ## A start that is no node -/

/-- A search from an operation that is no node has nothing left after one step. -/
theorem step_start_of_notMem (hg : g.WellFormed) (ho : o ∉ g.nodes) :
    (start o).step q g = ⟨[], [o]⟩ := by
  have hallows : q.allows 0 = true := by simp [SliceQuery.allows_iff]
  have hnext : q.next g o = [] := by
    refine List.eq_nil_iff_forall_not_mem.mpr fun w hw => ho ?_
    obtain ⟨e, he, rfl, -⟩ := SliceQuery.mem_next.mp hw
    exact hg.source_mem he
  rw [start, step_of_visit hallows List.not_mem_nil, found, hnext]
  rfl

theorem iterate_start_of_notMem (hg : g.WellFormed) (ho : o ∉ g.nodes) (n : Nat) :
    (step q g)^[n + 1] (start o) = ⟨[], [o]⟩ := by
  rw [Function.iterate_succ_apply, step_start_of_notMem hg ho]
  exact Function.iterate_fixed rfl n

/-! ## The search from a start -/

/-- At no moment is an entry further away than there are nodes. -/
theorem distance_le_nodeCount (hg : g.WellFormed) {entry : OperationId × Nat}
    (hentry : entry ∈ ((step q g)^[n] (start o)).frontier) : entry.2 ≤ g.nodeCount := by
  by_cases ho : o ∈ g.nodes
  · have hcounted : Counted g ((step q g)^[n] (start o)) :=
      iterate_induction (.start ho) (fun s h => h.step hg) n
    exact hcounted.distance_le_nodeCount hentry
  · cases n with
    | zero =>
        obtain rfl := List.mem_singleton.mp hentry
        exact Nat.zero_le _
    | succ n =>
        rw [iterate_start_of_notMem hg ho] at hentry
        cases hentry

/-- With a limit from the number of nodes less one on, a search is at each moment in the state in
which it is without a limit. -/
theorem iterate_eq_of_limit (hg : g.WellFormed) {m : Nat} (hm : g.nodeCount ≤ m + 1) (n : Nat) :
    (step { q with limit := some m } g)^[n] (start o)
      = (step { q with limit := none } g)^[n] (start o) := by
  by_cases ho : o ∈ g.nodes
  · refine iterate_congr (P := Counted g) (.start ho) (fun s h => h.step hg) (fun s h => ?_) n
    refine h.step_eq fun m' hm' => ?_
    obtain rfl := Option.some.inj hm'
    exact hm
  · cases n with
    | zero => rfl
    | succ n => rw [iterate_start_of_notMem hg ho, iterate_start_of_notMem hg ho]

theorem run_eq_of_limit (hg : g.WellFormed) {m : Nat} (hm : g.nodeCount ≤ m + 1) :
    (start o).run { q with limit := some m } g = (start o).run { q with limit := none } g := by
  obtain ⟨n, -, heq, hdone, -⟩ := exists_iterate_eq_run { q with limit := none } g (start o)
  have hsame := iterate_eq_of_limit (q := q) (o := o) hg hm n
  have hend : ((step { q with limit := some m } g)^[n] (start o)).frontier = [] := by
    rw [hsame, heq, hdone]
  rw [run_eq_of_iterate hend, hsame, heq]

end Search

namespace DependencyGraph

variable {g : DependencyGraph}

/-- There are no more nodes than numbers of operations. -/
theorem WellFormed.nodeCount_le (hg : g.WellFormed) : g.nodeCount ≤ UInt32.size := by
  have hinj : Function.Injective fun o : OperationId => o.index.toNat :=
    fun _ _ h => Handle.number_injective h
  have hnodup := hg.nodes_nodup.map hinj
  have hsub : ∀ n ∈ g.nodes.map fun o => o.index.toNat, n ∈ List.range UInt32.size := by
    intro n hn
    obtain ⟨o, -, rfl⟩ := List.mem_map.mp hn
    exact List.mem_range.mpr o.index.toNat_lt_size
  have hle := (hnodup.subperm hsub).length_le
  rwa [List.length_map, List.length_range] at hle

/-- **The search behind a slice is bounded.**  From whatever operation it starts, with whatever
filter, direction and limit, it takes at most one entry for each edge and one for the start, and
then its frontier is empty.  No entry is ever further away than there are nodes, so that counting
one step more never overflows a word.  With the greatest word as its limit the search goes through
the same states as without a limit, and from the number of nodes less one on every limit gives the
slice that there is without one. -/
theorem search_bounded (h : g.Arises) (q : SliceQuery) (o : OperationId) :
    (∃ n ≤ g.edgeCount + 1, (Search.step q g)^[n] (Search.start o) = (Search.start o).run q g ∧
      ((Search.start o).run q g).frontier = [] ∧
      ∀ m < n, ((Search.step q g)^[m] (Search.start o)).frontier ≠ []) ∧
    (∀ n, ∀ entry ∈ ((Search.step q g)^[n] (Search.start o)).frontier,
      entry.2 ≤ g.nodeCount ∧ (UInt64.ofNat entry.2 + 1).toNat = entry.2 + 1) ∧
    (∀ n, (Search.step { q with limit := some (UInt64.size - 1) } g)^[n] (Search.start o)
      = (Search.step { q with limit := none } g)^[n] (Search.start o)) ∧
    ∀ m, g.nodeCount - 1 ≤ m →
      g.slice { q with limit := some m } o = g.slice { q with limit := none } o := by
  have hg := h.wellFormed
  have hcount := hg.nodeCount_le
  refine ⟨?_, fun n entry hentry => ?_, fun n => ?_, fun m hm => ?_⟩
  · rw [← Search.work_start q g o]
    exact Search.exists_iterate_eq_run q g (Search.start o)
  · have hle := Search.distance_le_nodeCount hg hentry
    have hword : entry.2 + 1 < 2 ^ 64 :=
      (Nat.succ_le_succ (hle.trans hcount)).trans_lt (by decide)
    refine ⟨hle, ?_⟩
    rw [UInt64.toNat_add, UInt64.toNat_ofNat', UInt64.toNat_one]
    omega
  · exact Search.iterate_eq_of_limit hg (hcount.trans (by decide)) n
  · rw [slice, slice, Search.run_eq_of_limit hg (Nat.le_add_of_sub_le hm)]

/-- In a cycle of three operations two steps are enough, and one is not. -/
theorem search_bounded_cycle :
    (ofRecord cycle).Arises ∧
      (∃ n ≤ 5, (Search.step ⟨.backward, .all, none⟩ (ofRecord cycle))^[n] (Search.start ⟨0⟩)
        = (Search.start ⟨0⟩).run ⟨.backward, .all, none⟩ (ofRecord cycle)) ∧
      (ofRecord cycle).backwardSlice ⟨0⟩ (some 2) = (ofRecord cycle).backwardSlice ⟨0⟩ none ∧
      (ofRecord cycle).backwardSlice ⟨0⟩ (some 1) ≠ (ofRecord cycle).backwardSlice ⟨0⟩ none := by
  have harises : (ofRecord cycle).Arises := .loaded cycle
  obtain ⟨⟨n, hn, hend, -⟩, -, -, hlimit⟩ := search_bounded harises ⟨.backward, .all, none⟩ ⟨0⟩
  exact ⟨harises, ⟨n, hn, hend⟩, hlimit 2 (by decide), by decide +kernel⟩

end DependencyGraph

end ProgramSlice
