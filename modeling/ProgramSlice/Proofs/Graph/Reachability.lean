import Mathlib.Logic.Function.Basic
import Mathlib.Tactic
import ProgramSlice.Graph.Slice
import ProgramSlice.Proofs.Graph.Growth

/-!
# What a slice reaches

A slice is defined by a search.  Said without it, a slice holds the ends of all *paths* from its
start that follow admitted edges and are not longer than the limit (`mem_slice`).

Operations are marked when they are taken from the frontier, and an entry beyond the limit is
dropped for good.  That nothing is lost that way rests on the order of the frontier: its entries
stand in the order of their distances, which differ by at most one, and no operation was visited
at a greater distance than what still waits.  So an operation is first taken from the frontier at
its least distance.  `Search.Trail` is this invariant, with the distance at which each operation
was visited as a witness; a step keeps it whether it visits an operation (`Trail.visit`) or drops
an entry (`Trail.drop`), and a run therefore ends with it (`Trail.run`).

Of an edge a path uses no more than its ends and that it is admitted, so two graphs with the same
`Links` have the same slices (`slice_congr`).
-/

namespace ProgramSlice

/-- A path along edges of a graph, followed in one direction and each admitted by a filter, with
its length. -/
inductive DependencyGraph.Path (g : DependencyGraph) (d : Direction) (f : RuleFilter) :
    Nat → OperationId → OperationId → Prop
  | nil (o : OperationId) : Path g d f 0 o o
  | snoc {k : Nat} {o : OperationId} {e : Edge} (h : Path g d f k o (e.source d))
      (he : e ∈ g.edges)
      (hrule : f.sequencing = true ∧ e.provenance.type.includesSequencing = true ∨
        f.data = true ∧ e.provenance.type.includesData = true) :
      Path g d f (k + 1) o (e.target d)

namespace SliceQuery

variable {q : SliceQuery} {g : DependencyGraph} {o v w : OperationId} {j k : Nat}

/-- The paths that a query follows. -/
abbrev Follows (q : SliceQuery) (g : DependencyGraph) : Nat → OperationId → OperationId → Prop :=
  g.Path q.direction q.filter

theorem mem_next : w ∈ q.next g v ↔ ∃ e ∈ g.edges, e.source q.direction = v ∧
    e.target q.direction = w ∧ (q.filter.sequencing = true ∧
      e.provenance.type.includesSequencing = true ∨
      q.filter.data = true ∧ e.provenance.type.includesData = true) := by
  simp only [next, follows, RuleFilter.admits, List.mem_map, List.mem_filter, Bool.and_eq_true,
    Bool.or_eq_true, decide_eq_true_eq]
  constructor
  · rintro ⟨e, ⟨he, hsource, hrule⟩, htarget⟩
    exact ⟨e, he, hsource, htarget, hrule⟩
  · rintro ⟨e, he, hsource, htarget, hrule⟩
    exact ⟨e, ⟨he, hsource, hrule⟩, htarget⟩

/-- A path that a query follows goes on to what comes next. -/
theorem Follows.next (h : q.Follows g k o v) (hw : w ∈ q.next g v) : q.Follows g (k + 1) o w := by
  obtain ⟨e, he, rfl, rfl, hrule⟩ := mem_next.mp hw
  exact .snoc h he hrule

theorem allows_iff : q.allows k = true ↔ ∀ m ∈ q.limit, k ≤ m := by
  cases h : q.limit <;> simp [allows, h]

theorem allows_of_le (hjk : j ≤ k) (hk : q.allows k = true) : q.allows j = true := by
  rw [allows_iff] at hk ⊢
  exact fun m hm => hjk.trans (hk m hm)

end SliceQuery

/-! ## The invariant of a search -/

namespace Search

variable {q : SliceQuery} {g : DependencyGraph} {o v w x : OperationId} {d k : Nat} {s : Search}
  {depth : OperationId → Nat} {rest : List (OperationId × Nat)} {visited : List OperationId}

/-- An operation at distance `k` is taken care of: it was visited at no greater distance, it waits
in the frontier, or the distance is beyond the limit. -/
def Settled (q : SliceQuery) (s : Search) (depth : OperationId → Nat) (w : OperationId)
    (k : Nat) : Prop :=
  (w ∈ s.visited ∧ depth w ≤ k) ∨ (w, k) ∈ s.frontier ∨ q.allows k = false

/-- What holds at every moment of a search from `o`.  The distance at which an operation was
visited is `depth`. -/
structure Trail (q : SliceQuery) (g : DependencyGraph) (o : OperationId) (s : Search)
    (depth : OperationId → Nat) : Prop where
  /-- What waits is reached by a path as long as its distance. -/
  frontier_path : ∀ entry ∈ s.frontier, q.Follows g entry.2 o entry.1
  /-- What was visited is reached within the limit. -/
  visited_path : ∀ v ∈ s.visited, q.allows (depth v) = true ∧ q.Follows g (depth v) o v
  /-- The start is taken care of. -/
  settled_start : Settled q s depth o 0
  /-- What a visited operation leads to is taken care of. -/
  settled_next : ∀ v ∈ s.visited, ∀ w ∈ q.next g v, Settled q s depth w (depth v + 1)
  /-- The frontier is in the order of distances. -/
  sorted : s.frontier.Pairwise fun a b => a.2 ≤ b.2
  /-- Distances in the frontier differ by at most one. -/
  spread : ∀ a ∈ s.frontier, ∀ b ∈ s.frontier, b.2 ≤ a.2 + 1
  /-- Nothing that waits is nearer than what was visited. -/
  behind : ∀ v ∈ s.visited, ∀ a ∈ s.frontier, depth v ≤ a.2

/-! ### Taking an entry -/

/-- What is taken care of stays so when an entry is dropped that was visited or lies too far. -/
theorem Settled.drop (hdrop : q.allows d = false ∨ x ∈ visited ∧ depth x ≤ d)
    (h : Settled q ⟨(x, d) :: rest, visited⟩ depth w k) :
    Settled q ⟨rest, visited⟩ depth w k := by
  rcases h with h | h | h
  · exact Or.inl h
  · rcases List.mem_cons.mp h with heq | h
    · cases heq
      rcases hdrop with hfar | hseen
      · exact Or.inr (Or.inr hfar)
      · exact Or.inl hseen
    · exact Or.inr (Or.inl h)
  · exact Or.inr (Or.inr h)

/-- What a visit adds to the frontier: what the operation leads to, unless it is marked. -/
abbrev found (q : SliceQuery) (g : DependencyGraph) (x : OperationId) (d : Nat)
    (visited : List OperationId) : List (OperationId × Nat) :=
  ((q.next g x).filter (· ∉ x :: visited)).map (·, d + 1)

theorem of_mem_found {a : OperationId × Nat} (ha : a ∈ found q g x d visited) :
    a.1 ∈ q.next g x ∧ a.2 = d + 1 := by
  obtain ⟨w, hw, rfl⟩ := List.mem_map.mp ha
  exact ⟨(List.mem_filter.mp hw).1, rfl⟩

/-- A step visits an entry that is within the limit and was not visited. -/
theorem step_of_visit (hd : q.allows d = true) (hx : x ∉ visited) :
    step q g ⟨(x, d) :: rest, visited⟩ = ⟨rest ++ found q g x d visited, x :: visited⟩ := by
  simp only [step, hd, hx, not_false_eq_true, decide_true, Bool.and_self, if_true]

/-- A step drops any other entry. -/
theorem step_of_drop (hdrop : q.allows d = false ∨ x ∈ visited) :
    step q g ⟨(x, d) :: rest, visited⟩ = ⟨rest, visited⟩ := by
  have hskip : (q.allows d && decide (x ∉ visited)) = false := by
    rcases hdrop with hfar | hseen
    · rw [hfar, Bool.false_and]
    · simp [hseen]
  simp only [step, hskip, Bool.false_eq_true, if_false]

/-- An entry is visited or dropped. -/
theorem visit_or_drop (q : SliceQuery) (d : Nat) (x : OperationId) (visited : List OperationId) :
    (q.allows d = true ∧ x ∉ visited) ∨ (q.allows d = false ∨ x ∈ visited) := by
  rw [← Bool.not_eq_true]
  tauto

theorem update_of_mem (hx : x ∉ visited) (hv : v ∈ visited) :
    Function.update depth x d v = depth v := by
  have hne : v ≠ x := fun heq => hx (heq ▸ hv)
  rw [Function.update_of_ne hne]

/-- What is taken care of stays so when an entry is visited. -/
theorem Settled.visit (hx : x ∉ visited) (h : Settled q ⟨(x, d) :: rest, visited⟩ depth w k) :
    Settled q ⟨rest ++ found q g x d visited, x :: visited⟩ (Function.update depth x d) w k := by
  rcases h with ⟨hw, hle⟩ | h | h
  · refine Or.inl ⟨List.mem_cons_of_mem _ hw, ?_⟩
    rwa [update_of_mem hx hw]
  · rcases List.mem_cons.mp h with heq | h
    · cases heq
      exact Or.inl ⟨List.mem_cons_self, by rw [Function.update_self]⟩
    · exact Or.inr (Or.inl (List.mem_append_left _ h))
  · exact Or.inr (Or.inr h)

/-- What a visited operation leads to is taken care of: it is marked, or it waits by now. -/
theorem Settled.found (hx : x ∉ visited) (hbehind : ∀ v ∈ visited, depth v ≤ d)
    (hw : w ∈ q.next g x) :
    Settled q ⟨rest ++ found q g x d visited, x :: visited⟩ (Function.update depth x d) w
      (d + 1) := by
  by_cases hseen : w ∈ x :: visited
  · refine Or.inl ⟨hseen, ?_⟩
    rcases List.mem_cons.mp hseen with rfl | hseen
    · rw [Function.update_self]
      exact Nat.le_succ d
    · rw [update_of_mem hx hseen]
      exact (hbehind w hseen).trans (Nat.le_succ d)
  · refine Or.inr (Or.inl (List.mem_append_right _ (List.mem_map.mpr ⟨w, ?_, rfl⟩)))
    exact List.mem_filter.mpr ⟨hw, decide_eq_true hseen⟩

namespace Trail

/-- A search begins with its start in the frontier. -/
theorem start (q : SliceQuery) (g : DependencyGraph) (o : OperationId) :
    Trail q g o (start o) fun _ => 0 where
  frontier_path := by
    intro entry hentry
    obtain rfl := List.mem_singleton.mp hentry
    exact .nil o
  visited_path := by simp [Search.start]
  settled_start := Or.inr (Or.inl List.mem_cons_self)
  settled_next := by simp [Search.start]
  sorted := List.pairwise_singleton _ _
  spread := by simp [Search.start]
  behind := by simp [Search.start]

/-- **Dropping an entry** that was visited or lies too far. -/
theorem drop (h : Trail q g o ⟨(x, d) :: rest, visited⟩ depth)
    (hdrop : q.allows d = false ∨ x ∈ visited) : Trail q g o ⟨rest, visited⟩ depth := by
  have hreason : q.allows d = false ∨ x ∈ visited ∧ depth x ≤ d :=
    hdrop.imp_right fun hx => ⟨hx, h.behind x hx (x, d) List.mem_cons_self⟩
  exact {
    frontier_path := fun entry hentry => h.frontier_path entry (List.mem_cons_of_mem _ hentry)
    visited_path := h.visited_path
    settled_start := h.settled_start.drop hreason
    settled_next := fun v hv w hw => (h.settled_next v hv w hw).drop hreason
    sorted := (List.pairwise_cons.mp h.sorted).2
    spread := fun a ha b hb =>
      h.spread a (List.mem_cons_of_mem _ ha) b (List.mem_cons_of_mem _ hb)
    behind := fun v hv a ha => h.behind v hv a (List.mem_cons_of_mem _ ha) }

/-- Every distance in the frontier behind a visit is that of the visit or one more. -/
theorem distance_of_mem (h : Trail q g o ⟨(x, d) :: rest, visited⟩ depth)
    {a : OperationId × Nat} (ha : a ∈ rest ++ found q g x d visited) : d ≤ a.2 ∧ a.2 ≤ d + 1 := by
  rcases List.mem_append.mp ha with ha | ha
  · exact ⟨(List.pairwise_cons.mp h.sorted).1 a ha,
      h.spread (x, d) List.mem_cons_self a (List.mem_cons_of_mem _ ha)⟩
  · rw [(of_mem_found ha).2]
    exact ⟨Nat.le_succ d, le_rfl⟩

/-- **Visiting an operation**: it is marked, and what it leads to waits one step further away. -/
theorem visit (h : Trail q g o ⟨(x, d) :: rest, visited⟩ depth) (hd : q.allows d = true)
    (hx : x ∉ visited) :
    Trail q g o ⟨rest ++ found q g x d visited, x :: visited⟩ (Function.update depth x d) := by
  have hpath : q.Follows g d o x := h.frontier_path (x, d) List.mem_cons_self
  have hbehind : ∀ v ∈ visited, depth v ≤ d := fun v hv => h.behind v hv (x, d) List.mem_cons_self
  constructor
  case frontier_path =>
    intro a ha
    rcases List.mem_append.mp ha with ha | ha
    · exact h.frontier_path a (List.mem_cons_of_mem _ ha)
    · rw [(of_mem_found ha).2]
      exact hpath.next (of_mem_found ha).1
  case visited_path =>
    intro v hv
    rcases List.mem_cons.mp hv with rfl | hv
    · rw [Function.update_self]
      exact ⟨hd, hpath⟩
    · rw [update_of_mem hx hv]
      exact h.visited_path v hv
  case settled_start => exact h.settled_start.visit hx
  case settled_next =>
    intro v hv w hw
    rcases List.mem_cons.mp hv with rfl | hv
    · rw [Function.update_self]
      exact .found hx hbehind hw
    · rw [update_of_mem hx hv]
      exact (h.settled_next v hv w hw).visit hx
  case sorted =>
    refine List.pairwise_append.mpr ⟨(List.pairwise_cons.mp h.sorted).2, ?_, ?_⟩
    · exact List.pairwise_of_forall_mem_list fun a ha b hb =>
        le_of_eq ((of_mem_found ha).2.trans (of_mem_found hb).2.symm)
    · intro a ha b hb
      rw [(of_mem_found hb).2]
      exact (h.distance_of_mem (List.mem_append_left _ ha)).2
  case spread =>
    intro a ha b hb
    exact (h.distance_of_mem hb).2.trans (Nat.succ_le_succ (h.distance_of_mem ha).1)
  case behind =>
    intro v hv a ha
    rcases List.mem_cons.mp hv with rfl | hv
    · rw [Function.update_self]
      exact (h.distance_of_mem ha).1
    · rw [update_of_mem hx hv]
      exact (hbehind v hv).trans (h.distance_of_mem ha).1

/-! ### A run -/

/-- A step keeps the invariant. -/
theorem step (h : Trail q g o s depth) : ∃ depth', Trail q g o (s.step q g) depth' := by
  obtain ⟨frontier, visited⟩ := s
  cases frontier with
  | nil => exact ⟨depth, h⟩
  | cons entry rest =>
      obtain ⟨x, d⟩ := entry
      rcases visit_or_drop q d x visited with ⟨hd, hx⟩ | hdrop
      · rw [step_of_visit hd hx]
        exact ⟨Function.update depth x d, h.visit hd hx⟩
      · rw [step_of_drop hdrop]
        exact ⟨depth, h.drop hdrop⟩

/-- **A run ends with the invariant** and an empty frontier. -/
theorem run (h : Trail q g o s depth) :
    ∃ depth', Trail q g o (s.run q g) depth' ∧ (s.run q g).frontier = [] := by
  induction s using Search.run.induct q g generalizing depth with
  | case1 s hdone =>
      rw [Search.run, dif_pos hdone]
      exact ⟨depth, h, hdone⟩
  | case2 s hmore ih =>
      rw [Search.run, dif_neg hmore]
      obtain ⟨depth', h'⟩ := h.step
      exact ih h'

/-- When nothing waits, every path within the limit leads to an operation that was visited at no
greater distance than the path is long. -/
theorem mem_visited_of_path (h : Trail q g o s depth) (hdone : s.frontier = []) {n : OperationId}
    (hpath : q.Follows g k o n) (hk : q.allows k = true) : n ∈ s.visited ∧ depth n ≤ k := by
  induction hpath with
  | nil =>
      rcases h.settled_start with hseen | hwaits | hfar
      · exact hseen
      · rw [hdone] at hwaits
        exact absurd hwaits List.not_mem_nil
      · rw [hfar] at hk
        exact absurd hk Bool.false_ne_true
  | @snoc k o e _ he hrule ih =>
      obtain ⟨hv, hle⟩ := ih h (SliceQuery.allows_of_le (Nat.le_succ k) hk)
      have hnext := h.settled_next _ hv _ (SliceQuery.mem_next.mpr ⟨e, he, rfl, rfl, hrule⟩)
      rcases hnext with ⟨hseen, hlast⟩ | hwaits | hfar
      · exact ⟨hseen, hlast.trans (Nat.succ_le_succ hle)⟩
      · rw [hdone] at hwaits
        exact absurd hwaits List.not_mem_nil
      · rw [SliceQuery.allows_of_le (Nat.succ_le_succ hle) hk] at hfar
        exact absurd hfar.symm Bool.false_ne_true

end Trail

/-- **A finished search** has visited what paths within the limit reach. -/
theorem mem_visited_run {n : OperationId} :
    n ∈ ((start o).run q g).visited ↔ ∃ k, q.allows k = true ∧ q.Follows g k o n := by
  obtain ⟨depth, h, hdone⟩ := (Trail.start q g o).run
  constructor
  · intro hn
    exact ⟨depth n, h.visited_path n hn⟩
  · rintro ⟨k, hk, hpath⟩
    exact (h.mem_visited_of_path hdone hpath hk).1

end Search

/-! ## Slices -/

namespace DependencyGraph

variable {g : DependencyGraph} {q : SliceQuery} {d : Direction} {f : RuleFilter}
  {o n : OperationId} {k : Nat}

/-- **A slice** of a node holds the ends of the paths within the limit. -/
theorem mem_slice : n ∈ g.slice q o ↔
    o ∈ g.nodes ∧ ∃ k, (∀ m ∈ q.limit, k ≤ m) ∧ q.Follows g k o n := by
  simp only [← SliceQuery.allows_iff]
  rw [slice]
  split
  · next ho => rw [HandleSet.mem_ofList, Search.mem_visited_run, and_iff_right ho]
  · next ho => exact iff_of_false (HandleSet.not_mem_empty n) fun h => ho h.1

/-- In a well-formed graph a path from a node ends at a node. -/
theorem Path.mem_nodes (hg : g.WellFormed) (h : g.Path d f k o n) (ho : o ∈ g.nodes) :
    n ∈ g.nodes := by
  cases h with
  | nil => exact ho
  | snoc _ he _ =>
      cases d with
      | backward => exact hg.dependency_mem he
      | forward => exact hg.dependent_mem he

theorem mem_nodes_of_mem_slice (hg : g.WellFormed) (h : n ∈ g.slice q o) : n ∈ g.nodes := by
  obtain ⟨ho, k, _, hpath⟩ := mem_slice.mp h
  exact hpath.mem_nodes hg ho

/-! ## Slices of two graphs -/

/-- One operation depends on another by a rule that a filter chooses. -/
def Links (g : DependencyGraph) (f : RuleFilter) (a b : OperationId) : Prop :=
  ∃ p, (⟨a, b, p⟩ : Edge) ∈ g.edges ∧ (f.sequencing = true ∧ p.type.includesSequencing = true ∨
    f.data = true ∧ p.type.includesData = true)

variable {g' : DependencyGraph} {f' : RuleFilter} {limit : Option Nat}

/-- A path is a path in every graph that has its links, whatever else is known of them. -/
theorem Path.of_links (hlinks : ∀ a b, g.Links f a b → g'.Links f' a b) (h : g.Path d f k o n) :
    g'.Path d f' k o n := by
  induction h with
  | nil => exact .nil _
  | @snoc k o e _ he hrule ih =>
      obtain ⟨p, he', hrule'⟩ := hlinks e.dependent e.dependency ⟨e.provenance, he, hrule⟩
      cases d with
      | backward => exact .snoc (e := ⟨e.dependent, e.dependency, p⟩) ih he' hrule'
      | forward => exact .snoc (e := ⟨e.dependent, e.dependency, p⟩) ih he' hrule'

/-- **A slice depends on the nodes and the links alone.**  The order of the edges, and what is known
of them besides the chosen rules, do not matter. -/
theorem slice_congr (hnodes : g.nodes = g'.nodes)
    (hlinks : ∀ a b, g.Links f a b ↔ g'.Links f' a b) :
    g.slice ⟨d, f, limit⟩ o = g'.slice ⟨d, f', limit⟩ o := by
  refine HandleSet.ext fun n => ?_
  rw [mem_slice, mem_slice, hnodes]
  refine and_congr_right fun _ => exists_congr fun k => and_congr_right fun _ => ?_
  exact ⟨Path.of_links fun a b => (hlinks a b).mp, Path.of_links fun a b => (hlinks a b).mpr⟩

end DependencyGraph

end ProgramSlice
