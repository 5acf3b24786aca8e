import ProgramSlice.Handle.Basic

/-!
# Finite sets of handles

A set is kept as the list of its members in ascending order, so that a set has one form only:
two sets with the same members are equal (`HandleSet.ext`), and what is printed of a set does not
depend on the order in which it was filled.

The view of a set is membership; `mem_insert` and `mem_ofList` say what the operations do to it.
-/

namespace ProgramSlice

open Handle

variable {α : Type} [Handle α]

/-- The members in ascending order of their numbers, each once. -/
structure HandleSet (α : Type) [Handle α] where
  /-- The members, smallest number first. -/
  toList : List α
  /-- No member is repeated or out of order. -/
  ascending : toList.Pairwise Before

namespace HandleSet

/-! ## Operations -/

/-- Put a handle at its place in an ascending list; one that is there already is kept once. -/
def insertAscending (a : α) : List α → List α
  | [] => [a]
  | b :: rest =>
      if number a < number b then a :: b :: rest
      else if number a = number b then b :: rest
      else b :: insertAscending a rest

theorem mem_insertAscending {a x : α} {l : List α} :
    x ∈ insertAscending a l ↔ x = a ∨ x ∈ l := by
  induction l with
  | nil => simp [insertAscending]
  | cons b rest ih =>
      unfold insertAscending
      split
      · simp
      · split
        · next h => rw [number_injective h]; simp
        · simp only [List.mem_cons, ih]
          exact or_left_comm

theorem ascending_insertAscending (a : α) {l : List α} (h : l.Pairwise Before) :
    (insertAscending a l).Pairwise Before := by
  induction l with
  | nil => simp [insertAscending]
  | cons b rest ih =>
      rw [List.pairwise_cons] at h
      unfold insertAscending
      split
      · next hab =>
        rw [List.pairwise_cons, List.pairwise_cons]
        refine ⟨fun x hx => ?_, h⟩
        rcases List.mem_cons.mp hx with rfl | hx
        · exact hab
        · exact Nat.lt_trans hab (h.1 x hx)
      · next hab =>
        split
        · exact List.pairwise_cons.mpr h
        · next hne =>
          rw [List.pairwise_cons]
          refine ⟨fun x hx => ?_, ih h.2⟩
          rcases mem_insertAscending.mp hx with rfl | hx
          · show number b < number x
            omega
          · exact h.1 x hx

/-- The set without members. -/
def empty : HandleSet α := ⟨[], List.Pairwise.nil⟩

instance : EmptyCollection (HandleSet α) := ⟨empty⟩

instance : Inhabited (HandleSet α) := ⟨empty⟩

/-- Add one member. -/
def insert (s : HandleSet α) (a : α) : HandleSet α :=
  ⟨insertAscending a s.toList, ascending_insertAscending a s.ascending⟩

/-- The set of the members of a list, which may repeat them in any order. -/
def ofList (l : List α) : HandleSet α := l.foldl insert empty

instance : Membership α (HandleSet α) := ⟨fun s a => a ∈ s.toList⟩

instance [DecidableEq α] (a : α) (s : HandleSet α) : Decidable (a ∈ s) :=
  inferInstanceAs (Decidable (a ∈ s.toList))

/-- Whether the set has no member. -/
def isEmpty (s : HandleSet α) : Bool := s.toList.isEmpty

/-- The number of members. -/
def size (s : HandleSet α) : Nat := s.toList.length

/-! ## The view of a set -/

theorem mem_def {a : α} {s : HandleSet α} : a ∈ s ↔ a ∈ s.toList := Iff.rfl

@[simp] theorem not_mem_empty (a : α) : ¬ a ∈ (empty : HandleSet α) := by
  simp [mem_def, empty]

@[simp] theorem mem_insert {a x : α} {s : HandleSet α} : x ∈ s.insert a ↔ x = a ∨ x ∈ s :=
  mem_insertAscending

theorem mem_foldl_insert {x : α} (l : List α) (s : HandleSet α) :
    x ∈ l.foldl insert s ↔ x ∈ s ∨ x ∈ l := by
  induction l generalizing s with
  | nil => simp
  | cons a rest ih =>
      rw [List.foldl_cons, ih, mem_insert, List.mem_cons]
      constructor
      · rintro ((h | h) | h)
        · exact Or.inr (Or.inl h)
        · exact Or.inl h
        · exact Or.inr (Or.inr h)
      · rintro (h | h | h)
        · exact Or.inl (Or.inr h)
        · exact Or.inl (Or.inl h)
        · exact Or.inr h

@[simp] theorem mem_ofList {x : α} {l : List α} : x ∈ ofList l ↔ x ∈ l := by
  simp [ofList, mem_foldl_insert]

/-- Two ascending lists with the same members are the same list. -/
theorem eq_of_ascending {l m : List α} (hl : l.Pairwise Before) (hm : m.Pairwise Before)
    (h : ∀ x, x ∈ l ↔ x ∈ m) : l = m := by
  induction l generalizing m with
  | nil =>
      cases m with
      | nil => rfl
      | cons b m => exact absurd ((h b).mpr List.mem_cons_self) List.not_mem_nil
  | cons a l ih =>
      cases m with
      | nil => exact absurd ((h a).mp List.mem_cons_self) List.not_mem_nil
      | cons b m =>
          rw [List.pairwise_cons] at hl hm
          have hab : a = b := by
            rcases List.mem_cons.mp ((h a).mp List.mem_cons_self) with hab | ham
            · exact hab
            rcases List.mem_cons.mp ((h b).mpr List.mem_cons_self) with hba | hbl
            · exact hba.symm
            exact absurd (hm.1 a ham) (Nat.lt_asymm (hl.1 b hbl))
          subst hab
          refine congrArg (a :: ·) (ih hl.2 hm.2 fun x => ?_)
          have hx := h x
          simp only [List.mem_cons] at hx
          constructor
          · intro hxl
            rcases hx.mp (Or.inr hxl) with rfl | hxm
            · exact absurd (hl.1 x hxl) (Nat.lt_irrefl _)
            · exact hxm
          · intro hxm
            rcases hx.mpr (Or.inr hxm) with rfl | hxl
            · exact absurd (hm.1 x hxm) (Nat.lt_irrefl _)
            · exact hxl

/-- **A set is its members.**  Two sets with the same members are equal. -/
@[ext] theorem ext {s t : HandleSet α} (h : ∀ x, x ∈ s ↔ x ∈ t) : s = t := by
  cases s; cases t
  simp only [mem_def] at h
  simp only [mk.injEq]
  exact eq_of_ascending ‹_› ‹_› h

theorem toList_inj {s t : HandleSet α} : s.toList = t.toList ↔ s = t :=
  ⟨fun h => ext fun x => by simp [mem_def, h], fun h => h ▸ rfl⟩

instance [DecidableEq α] : DecidableEq (HandleSet α) := fun s t =>
  decidable_of_iff (s.toList = t.toList) toList_inj

/-- A list that is ascending already is the list of its own set. -/
theorem toList_ofList {l : List α} (h : l.Pairwise Before) : (ofList l).toList = l :=
  congrArg toList (ext (t := ⟨l, h⟩) fun x => by simp [mem_def (s := ⟨l, h⟩)])

theorem ofList_toList (s : HandleSet α) : ofList s.toList = s :=
  toList_inj.mp (toList_ofList s.ascending)

end HandleSet

end ProgramSlice
