import ProgramSlice.Build.Pass
import ProgramSlice.Proofs.Body.Position

/-!
# A pass visit by visit

A pass makes stops and reports on each.  What comes of it is decided at the operations alone: the
entry into a block is logged and changes nothing.  So the result of a pass is a fold over the
*visits* of a layout (`result_buildWithTrace`), of which there is one for each position of the
traversal.

What a visit says of its position is read off the layout: the number of the block that holds the
position, and the operation at the position before, if that lies in the same entry
(`previous_of_visits`).
-/

namespace ProgramSlice

/-! ## The visits of a layout -/

/-- A stop at an operation. -/
structure Visit where
  /-- The number of the block. -/
  ordinal : UInt64
  /-- The operation before, in the same block. -/
  previous : Option OperationId
  /-- The operation. -/
  operation : OperationId

/-- The visit that a stop is, unless it enters a block. -/
def Stop.visit? : Stop → Option Visit
  | .enter _ => none
  | .visit ordinal previous operation => some ⟨ordinal, previous, operation⟩

/-- The visits of a layout in traversal order. -/
def BlockLayout.visits (l : BlockLayout) : List Visit := l.itinerary.filterMap Stop.visit?

namespace BlockLayout

variable {l : BlockLayout} {i k : Nat} {block : BasicBlock} {v : Visit}

/-- The visits that follow a given operation in a block, by their places. -/
theorem getElem?_visits_block (ordinal : UInt64) (previous : Option OperationId)
    (operations : List OperationId) (i : Nat) :
    ((BasicBlock.visits ordinal previous operations).filterMap Stop.visit?)[i]?
      = operations[i]?.map fun o =>
          ⟨ordinal, if i = 0 then previous else operations[i - 1]?, o⟩ := by
  induction operations generalizing previous i with
  | nil => rfl
  | cons o rest ih =>
      cases i with
      | zero => rfl
      | succ i =>
          have hrest := ih (some o) i
          simp only [BasicBlock.visits, List.filterMap_cons, Stop.visit?, List.getElem?_cons_succ,
            hrest]
          cases i <;> rfl

theorem visits_eq_flatMap (l : BlockLayout) :
    l.visits = l.blocks.flatMap fun b =>
      (BasicBlock.visits b.ordinal none b.operations).filterMap Stop.visit? := by
  simp [visits, itinerary, BasicBlock.itinerary, List.filterMap_flatMap, List.filterMap_cons,
    Stop.visit?]

/-- There is one visit for each operation of a block. -/
theorem length_visits_block (ordinal : UInt64) (previous : Option OperationId)
    (operations : List OperationId) :
    ((BasicBlock.visits ordinal previous operations).filterMap Stop.visit?).length
      = operations.length := by
  induction operations generalizing previous with
  | nil => rfl
  | cons o rest ih =>
      simp only [BasicBlock.visits, List.filterMap_cons, Stop.visit?, List.length_cons, ih]

/-- The visit at a position, by the entry that holds it. -/
theorem HoldsAt.getElem?_visits (h : l.HoldsAt k block i) :
    l.visits[i]? = l.operations[i]?.map fun o =>
      ⟨block.ordinal, if i = l.start k then none else l.operations[i - 1]?, o⟩ := by
  rw [visits_eq_flatMap, getElem?_flatMap (fun b => length_visits_block _ _ _) h,
    getElem?_visits_block, ← h.getElem?_operations]
  by_cases hfirst : i = l.start k
  · simp [hfirst]
  · have hbefore : l.HoldsAt k block (i - 1) := by
      obtain ⟨hk, hlow, hhigh⟩ := h
      exact ⟨hk, by omega, by omega⟩
    have hne : i - l.start k ≠ 0 := by
      have := h.2.1
      omega
    rw [if_neg hfirst, if_neg hne, hbefore.getElem?_operations, Nat.sub_right_comm]

theorem map_operation_visits (l : BlockLayout) : l.visits.map (·.operation) = l.operations := by
  rw [visits_eq_flatMap, List.map_flatMap]
  refine List.flatMap_congr fun b _ => List.ext_getElem? fun i => ?_
  rw [List.getElem?_map, getElem?_visits_block, Option.map_map]
  exact congrFun Option.map_id _

theorem length_visits (l : BlockLayout) : l.visits.length = l.operations.length := by
  rw [← map_operation_visits, List.length_map]

theorem operation_of_visits (h : l.visits[i]? = some v) : l.operations[i]? = some v.operation := by
  rw [← map_operation_visits, List.getElem?_map, h]
  rfl

theorem lt_of_visits (h : l.visits[i]? = some v) : i < l.operations.length := by
  rw [← length_visits]
  exact (List.getElem?_eq_some_iff.mp h).1

theorem mem_of_visits (h : l.visits[i]? = some v) : v.operation ∈ l.operations :=
  List.mem_of_getElem? (operation_of_visits h)

/-- A visit says of its position what the layout says. -/
theorem eq_of_visits (h : l.visits[i]? = some v) (hk : l.HoldsAt k block i) :
    ⟨block.ordinal, if i = l.start k then none else l.operations[i - 1]?, v.operation⟩ = v := by
  have ho := operation_of_visits h
  rw [hk.getElem?_visits, ho] at h
  exact Option.some.inj h

/-- The number of a visit is the one of the block that holds its position. -/
theorem ordinal_of_visits (h : l.visits[i]? = some v) (hk : l.HoldsAt k block i) :
    v.ordinal = block.ordinal := congrArg Visit.ordinal (eq_of_visits h hk).symm

/-- **The operation before** a visit stands at the position before, in the same entry. -/
theorem previous_of_visits (h : l.visits[i]? = some v) {p : OperationId} :
    v.previous = some p ↔ ∃ j, i = j + 1 ∧ l.SameBlock i j ∧ l.operations[j]? = some p := by
  obtain ⟨k, block, hk⟩ := exists_holdsAt (lt_of_visits h)
  rw [← congrArg Visit.previous (eq_of_visits h hk)]
  by_cases hfirst : i = l.start k
  · rw [if_pos hfirst]
    constructor
    · exact fun hp => absurd hp (by simp)
    · rintro ⟨j, rfl, ⟨m, block', hm, hj⟩, _⟩
      obtain rfl := hk.unique hm
      have := hj.2.1
      omega
  · rw [if_neg hfirst]
    constructor
    · intro hp
      have hlow := hk.2.1
      refine ⟨i - 1, by omega, ⟨k, block, hk, hk.1, by omega, ?_⟩, hp⟩
      have := hk.2.2
      omega
    · rintro ⟨j, rfl, _, hj⟩
      exact hj

end BlockLayout

/-! ## The pass as a fold -/

namespace Findings

variable {s : BuildSettings} {body : ProcedureBody}

/-- Take in the operation of one visit, unless it is refused. -/
def receive (s : BuildSettings) (body : ProcedureBody) (f : Findings) (v : Visit) :
    Except BuildError Findings :=
  (f.visit s body v.ordinal v.previous v.operation).result

/-- What is known before the first visit. -/
def begun (body : ProcedureBody) : Findings := { graph := { functionId := body.name } }

/-- What comes of the first visits of a body. -/
def upTo (s : BuildSettings) (body : ProcedureBody) (n : Nat) : Except BuildError Findings :=
  (body.layout.visits.take n).foldlM (receive s body) (begun body)

theorem result_andThen {α β : Type} (r : Report α) (next : α → Report β) :
    (r.andThen next).result = r.result.bind fun a => (next a).result := by
  rw [Report.andThen]
  cases r.result <;> rfl

/-- Entering a block decides nothing. -/
theorem result_follow (stops : List Stop) (f : Findings) :
    (follow s body stops f).result = (stops.filterMap Stop.visit?).foldlM (receive s body) f := by
  induction stops generalizing f with
  | nil => rfl
  | cons next rest ih =>
      rw [follow, result_andThen]
      cases next with
      | enter block => exact ih f
      | visit ordinal previous o =>
          simp only [ih]
          rfl

theorem upTo_succ {n : Nat} {v : Visit} (h : body.layout.visits[n]? = some v) :
    upTo s body (n + 1) = (upTo s body n).bind fun f => f.receive s body v := by
  rw [upTo, List.take_add_one, h, Option.toList_some, List.foldlM_append]
  refine congrArg _ (funext fun f => ?_)
  rw [List.foldlM_cons]
  cases receive s body f v <;> rfl

/-- The run of a build goes along the whole traversal. -/
theorem result_follow_itinerary (s : BuildSettings) (body : ProcedureBody) :
    (follow s body body.layout.itinerary (begun body)).result
      = upTo s body body.layout.operations.length := by
  have htake : body.layout.visits.take body.layout.operations.length = body.layout.visits := by
    rw [← BlockLayout.length_visits, List.take_length]
  rw [result_follow, upTo, htake]
  rfl

end Findings

/-- **The result of a pass** is decided visit by visit. -/
theorem result_buildWithTrace (s : BuildSettings) (body : ProcedureBody) :
    (buildWithTrace s body).result
      = (Findings.upTo s body body.layout.operations.length).map fun f => (f.graph, f.trace) := by
  rw [buildWithTrace, Findings.result_andThen, Findings.result_andThen]
  show ((Findings.follow s body body.layout.itinerary (Findings.begun body)).result.bind _) = _
  rw [Findings.result_follow_itinerary]
  rfl

theorem build_eq (s : BuildSettings) (body : ProcedureBody) :
    build s body = (Findings.upTo s body body.layout.operations.length).map (·.graph) := by
  rw [build, result_buildWithTrace]
  cases Findings.upTo s body body.layout.operations.length <;> rfl

end ProgramSlice
