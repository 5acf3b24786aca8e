import Mathlib.Tactic
import ProgramSlice.Body.Expression

/-!
# The walk through a tree

A walk keeps a stack and takes one sub-expression from it at a time; what it is to find is told by
recursion on the tree.  This file shows that both list the same, in three groups.

**The walk.**  The invariant is about any stack and not about a stack with one tree on it: a walk
visits the listings of what is pending, one behind the other (`Walk.yields_iff`).  A visit takes the
first entry off these listings (`Walk.preorderList_of_next`), whatever it does to the stack.

**The size.**  A visit leaves one node less to visit (`Walk.work_of_next`), so a listing has as many
entries as the tree has nodes (`length_preorder`).

**The places.**  Equal sub-expressions may stand in several places of a tree, so "each one once" is
said of places.  A place tells which child to go to at each step down from the root.  The pre-order
is the ascending order of places, in which a place comes before those below it
(`pairwise_places`, `map_subtree?_places`).
-/

namespace ProgramSlice

namespace Expression

variable {e c : Expression} {l : List Expression} {p : List Nat}

/-! ## Children -/

theorem preorderList_eq_flatMap (l : List Expression) : preorderList l = l.flatMap preorder := by
  induction l with
  | nil => rfl
  | cons e rest ih => rw [preorderList, ih, List.flatMap_cons]

theorem preorderList_append (l m : List Expression) :
    preorderList (l ++ m) = preorderList l ++ preorderList m := by
  simp only [preorderList_eq_flatMap, List.flatMap_append]

theorem preorderList_toList (o : Option Expression) : preorderList o.toList = preorderOption o := by
  cases o with
  | none => rfl
  | some e => simp [preorderList, preorderOption]

/-- The listing of a tree is its root and the listings of its children. -/
theorem preorder_eq (e : Expression) : e.preorder = e :: preorderList e.children := by
  cases e <;> simp [preorder, children, preorderList, preorderList_append, preorderList_toList]

theorem size_le_sizeList (h : c ∈ l) : c.size ≤ sizeList l := by
  induction l with
  | nil => exact absurd h List.not_mem_nil
  | cons e rest ih =>
      rw [sizeList]
      rcases List.mem_cons.mp h with rfl | h
      · exact Nat.le_add_right _ _
      · exact Nat.le_add_left_of_le (ih h)

theorem size_lt_of_mem_children (h : c ∈ e.children) : c.size < e.size := by
  rw [size_eq e]
  exact Nat.lt_succ_of_le (size_le_sizeList h)

/-- What a tree has when its children have it, every tree has. -/
@[elab_as_elim]
theorem induction_on_children {P : Expression → Prop}
    (step : ∀ e, (∀ c ∈ e.children, P c) → P e) (e : Expression) : P e := by
  induction hn : e.size using Nat.strong_induction_on generalizing e with
  | h n ih =>
      subst hn
      exact step e fun c hc => ih c.size (size_lt_of_mem_children hc) c rfl

/-! ## The walk -/

namespace Walk

variable {w rest : Walk}

/-- A walk visits these sub-expressions, one at a time and in this order, and then ends. -/
inductive Yields : Walk → List Expression → Prop
  /-- Nothing is left to be visited. -/
  | done {w : Walk} (h : w.next = none) : Yields w []
  /-- One visit, and what the walk does from there. -/
  | visit {w rest : Walk} {e : Expression} {l : List Expression} (h : w.next = some (e, rest))
      (hrest : Yields rest l) : Yields w (e :: l)

theorem next_eq_none_iff : w.next = none ↔ preorderList w.pending = [] := by
  obtain ⟨pending⟩ := w
  cases pending with
  | nil => simp [next, preorderList]
  | cons e below => simp [next, preorderList, preorder_eq e]

/-- **A visit** takes the first entry off the listings of what is pending. -/
theorem preorderList_of_next (h : w.next = some (e, rest)) :
    preorderList w.pending = e :: preorderList rest.pending := by
  obtain ⟨below, rfl, rfl⟩ := exists_of_next h
  rw [preorderList, preorder_eq, preorderList_append, List.cons_append]

/-- **A walk** visits the listings of what is pending, and nothing else. -/
theorem yields_iff : w.Yields l ↔ l = preorderList w.pending := by
  constructor
  · intro h
    induction h with
    | done h => exact (next_eq_none_iff.mp h).symm
    | visit h _ ih => rw [preorderList_of_next h, ih]
  · intro h
    induction l generalizing w with
    | nil => exact .done (next_eq_none_iff.mpr h.symm)
    | cons e l ih =>
        obtain ⟨⟨f, rest⟩, hnext⟩ : ∃ visit, w.next = some visit := by
          refine Option.ne_none_iff_exists'.mp fun hnone => ?_
          rw [next_eq_none_iff.mp hnone] at h
          cases h
        rw [preorderList_of_next hnext] at h
        obtain ⟨rfl, hl⟩ := List.cons.inj h
        exact .visit hnext (ih hl)

/-- A walk visits as many sub-expressions as it has nodes to visit. -/
theorem Yields.length_eq (h : w.Yields l) : l.length = w.work := by
  induction h with
  | @done w h =>
      obtain ⟨_ | ⟨e, below⟩⟩ := w
      · rfl
      · cases h
  | visit h _ ih => rw [List.length_cons, ih, work_of_next h]

theorem work_start (e : Expression) : (start e).work = e.size := by
  rw [work, start, sizeList, sizeList, Nat.add_zero]

/-- A walk that begins at the root of a tree visits the listing of the tree. -/
theorem yields_start_iff : (start e).Yields l ↔ l = e.preorder := by
  rw [yields_iff, start, preorderList, preorderList, List.append_nil]

theorem run_of_none (h : w.next = none) (visited : List Expression) :
    w.run visited = visited.reverse := by
  rw [run, h]

theorem run_of_some (h : w.next = some (e, rest)) (visited : List Expression) :
    w.run visited = rest.run (e :: visited) := by
  rw [run, h]

/-- What a walk collects is what was seen before and what it visits. -/
theorem run_eq (w : Walk) (visited : List Expression) :
    w.run visited = visited.reverse ++ preorderList w.pending := by
  induction w, visited using Walk.run.induct with
  | case1 w visited h => rw [run_of_none h, next_eq_none_iff.mp h, List.append_nil]
  | case2 w visited e rest h ih =>
      rw [run_of_some h, ih, preorderList_of_next h, List.reverse_cons, List.append_assoc]
      rfl

end Walk

theorem descendants_eq_preorder (e : Expression) : e.descendants = e.preorder := by
  rw [descendants, Walk.run_eq, Walk.start, preorderList, preorderList, List.append_nil]
  rfl

/-- A listing has as many entries as the tree has nodes. -/
theorem length_preorder (e : Expression) : e.preorder.length = e.size :=
  (Walk.yields_start_iff.mpr rfl).length_eq.trans (Walk.work_start e)

/-! ## The places -/

/-- The sub-expression that stands at a place of a tree, if the tree has the place. -/
def subtree? : Expression → List Nat → Option Expression
  | e, [] => some e
  | e, i :: p => e.children[i]?.bind fun c => c.subtree? p

/-- The places of a tree: the root, and then those below each child from left to right. -/
def places (e : Expression) : List (List Nat) :=
  [] :: e.children.zipIdx.attach.flatMap fun c => (places c.1.1).map (c.1.2 :: ·)
termination_by e.size
decreasing_by exact size_lt_of_mem_children (List.fst_mem_of_mem_zipIdx c.2)

theorem places_eq (e : Expression) :
    e.places = [] :: e.children.zipIdx.flatMap fun c => c.1.places.map (c.2 :: ·) := by
  rw [places, List.flatMap_subtype (g := fun c => c.1.places.map (c.2 :: ·)) fun _ _ => rfl,
    List.unattach_attach]

/-- The places are those at which a sub-expression stands. -/
theorem mem_places : p ∈ e.places ↔ (e.subtree? p).isSome := by
  induction e using induction_on_children generalizing p with
  | step e ih =>
      rw [places_eq]
      cases p with
      | nil => simp [subtree?]
      | cons i p =>
          simp only [List.mem_cons, reduceCtorEq, false_or, List.mem_flatMap, List.mem_map,
            Prod.exists, List.mk_mem_zipIdx_iff_getElem?, List.cons.injEq, subtree?]
          constructor
          · rintro ⟨c, _, hc, _, hp, rfl, rfl⟩
            rw [hc, Option.bind_some]
            exact (ih c (List.mem_of_getElem? hc)).mp hp
          · intro h
            cases hc : e.children[i]? with
            | none => simp [hc] at h
            | some c =>
                rw [hc, Option.bind_some] at h
                exact ⟨c, i, hc, p, (ih c (List.mem_of_getElem? hc)).mpr h, rfl, rfl⟩

/-- What stands at the places, one after the other, is the listing of the tree. -/
theorem map_subtree?_places (e : Expression) : e.places.map e.subtree? = e.preorder.map some := by
  induction e using induction_on_children with
  | step e ih =>
      have hchild : ∀ c ∈ e.children.zipIdx,
          (c.1.places.map (c.2 :: ·)).map e.subtree? = c.1.preorder.map some := by
        rintro ⟨c, i⟩ hc
        have hi : e.children[i]? = some c := List.mk_mem_zipIdx_iff_getElem?.mp hc
        rw [← ih c (List.mem_of_getElem? hi), List.map_map]
        refine List.map_congr_left fun p _ => ?_
        simp [subtree?, hi]
      calc e.places.map e.subtree?
          = some e :: e.children.zipIdx.flatMap fun c => c.1.preorder.map some := by
            rw [places_eq, List.map_cons, List.map_flatMap, List.flatMap_congr hchild, subtree?]
        _ = some e :: e.children.flatMap fun c => c.preorder.map some := by
            conv_rhs => rw [← List.zipIdx_map_fst 0 e.children, List.flatMap_map]
        _ = e.preorder.map some := by
            rw [preorder_eq, preorderList_eq_flatMap, List.map_cons, List.map_flatMap]

/-- **The places ascend,** and a place comes before those below it. -/
theorem pairwise_places (e : Expression) : e.places.Pairwise (· < ·) := by
  induction e using induction_on_children with
  | step e ih =>
      rw [places_eq, List.pairwise_cons, List.pairwise_flatMap]
      refine ⟨fun p hp => ?_, fun c hc => ?_, ?_⟩
      · -- the root comes first
        obtain ⟨c, -, hp⟩ := List.mem_flatMap.mp hp
        obtain ⟨q, -, rfl⟩ := List.mem_map.mp hp
        exact List.nil_lt_cons _ _
      · -- below one child
        refine List.pairwise_map.mpr ((ih c.1 (List.fst_mem_of_mem_zipIdx hc)).imp fun hpq => ?_)
        exact List.cons_lt_cons_iff.mpr (Or.inr ⟨rfl, hpq⟩)
      · -- below two children
        have hindex : e.children.zipIdx.Pairwise fun c d => c.2 < d.2 := by
          rw [← List.pairwise_map (f := Prod.snd), List.zipIdx_map_snd]
          exact List.pairwise_lt_range'
        refine hindex.imp fun hcd p hp q hq => ?_
        obtain ⟨p, -, rfl⟩ := List.mem_map.mp hp
        obtain ⟨q, -, rfl⟩ := List.mem_map.mp hq
        exact List.cons_lt_cons_iff.mpr (Or.inl hcd)

end Expression

end ProgramSlice
