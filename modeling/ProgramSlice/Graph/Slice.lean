import ProgramSlice.Graph.Basic

/-!
# Slices

The backward slice of an operation holds everything that the operation depends on, directly or
through others; the forward slice holds everything that depends on it.  A slice may be limited to
a number of steps and to the dependencies of chosen rules.

A slice is found by breadth-first search.  The frontier is a queue of operations with their
distance from the start.  An operation is marked when it is taken from the queue and not when it
is put there, so one operation may wait in the queue several times.  The search still ends: each
step takes one entry away, and the entries put back are paid for by edges that leave an operation
visited for the first time (`Search.work_step_lt`).
-/

namespace ProgramSlice

/-- Which way dependencies are followed. -/
inductive Direction where
  /-- From dependents to dependencies. -/
  | backward
  /-- From dependencies to dependents. -/
  | forward
deriving DecidableEq

/-- The end at which an edge is entered. -/
def Edge.source (e : Edge) : Direction → OperationId
  | .backward => e.dependent
  | .forward => e.dependency

/-- The end to which an edge leads. -/
def Edge.target (e : Edge) : Direction → OperationId
  | .backward => e.dependency
  | .forward => e.dependent

/-- The rules whose dependencies a slice follows. -/
structure RuleFilter where
  /-- Follow dependencies by the sequencing rule. -/
  sequencing : Bool
  /-- Follow dependencies by the data rule. -/
  data : Bool
deriving DecidableEq

namespace RuleFilter

/-- Follow every dependency. -/
def all : RuleFilter := ⟨true, true⟩

/-- Follow dependencies by the data rule alone. -/
def dataOnly : RuleFilter := ⟨false, true⟩

/-- Whether dependencies of a type are followed.  One chosen rule is enough. -/
def admits (f : RuleFilter) (t : DependencyType) : Bool :=
  f.sequencing && t.includesSequencing || f.data && t.includesData

end RuleFilter

/-- How a slice is taken. -/
structure SliceQuery where
  /-- Which way dependencies are followed. -/
  direction : Direction
  /-- Which dependencies are followed. -/
  filter : RuleFilter := RuleFilter.all
  /-- How many steps are allowed; any number if there is no limit. -/
  limit : Option Nat := none
deriving DecidableEq

namespace SliceQuery

/-- Whether a distance is within the limit. -/
def allows (q : SliceQuery) (depth : Nat) : Bool :=
  match q.limit with
  | none => true
  | some limit => depth ≤ limit

/-- Whether an edge leads away from an operation and is followed. -/
def follows (q : SliceQuery) (o : OperationId) (e : Edge) : Bool :=
  e.source q.direction = o && q.filter.admits e.provenance.type

/-- Where the followed edges lead from an operation, in edge order. -/
def next (q : SliceQuery) (g : DependencyGraph) (o : OperationId) : List OperationId :=
  (g.edges.filter (q.follows o)).map (·.target q.direction)

end SliceQuery

/-! ## The search -/

/-- The state of a search. -/
structure Search where
  /-- Operations still to be looked at, each with its distance from the start. -/
  frontier : List (OperationId × Nat)
  /-- The operations visited, latest first. -/
  visited : List OperationId := []
deriving DecidableEq

namespace Search

/-- Take one entry from the frontier.  It is dropped if it lies beyond the limit or was visited;
otherwise it is visited, and what it leads to is put at the end of the frontier. -/
def step (q : SliceQuery) (g : DependencyGraph) (s : Search) : Search :=
  match s.frontier with
  | [] => s
  | (o, depth) :: rest =>
      if q.allows depth && o ∉ s.visited then
        let visited := o :: s.visited
        let found := (q.next g o).filter (· ∉ visited)
        ⟨rest ++ found.map (·, depth + 1), visited⟩
      else ⟨rest, s.visited⟩

/-- The edges that leave operations not visited yet. -/
def openEdges (q : SliceQuery) (g : DependencyGraph) (visited : List OperationId) : List Edge :=
  g.edges.filter fun e => e.source q.direction ∉ visited

/-- What a search may still do: its entries, and one more for each edge it has not met. -/
def work (q : SliceQuery) (g : DependencyGraph) (s : Search) : Nat :=
  s.frontier.length + (openEdges q g s.visited).length

/-- The edges that leave one unvisited operation are open, and visiting it closes them. -/
theorem length_next_add_openEdges_le (q : SliceQuery) (g : DependencyGraph) {o : OperationId}
    {visited : List OperationId} (h : o ∉ visited) :
    (q.next g o).length + (openEdges q g (o :: visited)).length
      ≤ (openEdges q g visited).length := by
  unfold SliceQuery.next openEdges
  rw [List.length_map]
  induction g.edges with
  | nil => simp
  | cons e rest ih =>
      simp only [List.filter_cons, SliceQuery.follows, List.mem_cons, not_or]
      by_cases hs : e.source q.direction = o
      · simp only [hs, h, not_true_eq_false, false_and, decide_false, decide_true,
          not_false_eq_true, Bool.false_eq_true, if_false, if_true, Bool.true_and, List.length_cons]
        split <;> simp_all <;> omega
      · simp only [hs, not_false_eq_true, true_and, decide_false, Bool.false_and,
          Bool.false_eq_true, if_false]
        split
        · simp only [List.length_cons]
          simp only [List.mem_cons, not_or] at ih
          omega
        · simpa [SliceQuery.follows, List.mem_cons, not_or] using ih

/-- **A step leaves less to do,** as long as there is an entry to take. -/
theorem work_step_lt (q : SliceQuery) (g : DependencyGraph) {s : Search} (h : s.frontier ≠ []) :
    (s.step q g).work q g < s.work q g := by
  obtain ⟨frontier, visited⟩ := s
  cases frontier with
  | nil => exact absurd rfl h
  | cons entry rest =>
      obtain ⟨o, depth⟩ := entry
      by_cases hv : q.allows depth = true ∧ o ∉ visited
      · have hpaid := length_next_add_openEdges_le q g hv.2
        have hfound : ((q.next g o).filter (· ∉ o :: visited)).length ≤ (q.next g o).length :=
          List.length_filter_le _ _
        simp only [step, work, hv.1, hv.2, not_false_eq_true, decide_true, Bool.and_self, if_true,
          List.length_append, List.length_map, List.length_cons]
        omega
      · have hskip : (q.allows depth && decide (o ∉ visited)) = false := by
          simpa using hv
        simp only [step, work, hskip, Bool.false_eq_true, if_false, List.length_cons]
        omega

/-- Take steps until the frontier is empty. -/
def run (q : SliceQuery) (g : DependencyGraph) (s : Search) : Search :=
  if _ : s.frontier = [] then s else run q g (s.step q g)
termination_by s.work q g
decreasing_by exact work_step_lt q g ‹_›

/-- A search that has only its start to look at. -/
def start (o : OperationId) : Search := ⟨[(o, 0)], []⟩

end Search

/-! ## Slices -/

namespace DependencyGraph

/-- The operations that a query reaches from a start, the start included.  Nothing is reached from
an operation that is not registered. -/
def slice (g : DependencyGraph) (q : SliceQuery) (o : OperationId) : HandleSet OperationId :=
  if o ∈ g.nodes then HandleSet.ofList ((Search.start o).run q g).visited else HandleSet.empty

/-- Everything that an operation depends on through dependencies of the chosen rules. -/
def backwardSliceFiltered (g : DependencyGraph) (o : OperationId) (limit : Option Nat)
    (filter : RuleFilter) : HandleSet OperationId :=
  g.slice { direction := .backward, filter, limit } o

/-- Everything that depends on an operation through dependencies of the chosen rules. -/
def forwardSliceFiltered (g : DependencyGraph) (o : OperationId) (limit : Option Nat)
    (filter : RuleFilter) : HandleSet OperationId :=
  g.slice { direction := .forward, filter, limit } o

/-- Everything that an operation depends on. -/
def backwardSlice (g : DependencyGraph) (o : OperationId) (limit : Option Nat) :
    HandleSet OperationId :=
  g.backwardSliceFiltered o limit RuleFilter.all

/-- Everything that depends on an operation. -/
def forwardSlice (g : DependencyGraph) (o : OperationId) (limit : Option Nat) :
    HandleSet OperationId :=
  g.forwardSliceFiltered o limit RuleFilter.all

/-- Everything whose values an operation depends on. -/
def thinSlice (g : DependencyGraph) (o : OperationId) (limit : Option Nat) :
    HandleSet OperationId :=
  g.backwardSliceFiltered o limit RuleFilter.dataOnly

end DependencyGraph

end ProgramSlice
