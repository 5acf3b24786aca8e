import ProgramSlice.Handle.Basic

/-!
# Finite maps keyed by handles

A map is kept as the list of its entries in ascending order of their keys, one entry a key.  The
view of a map is `get?`: `get?_insert` says what an insertion does to it, and two maps that answer
every key alike are equal (`HandleMap.ext`).
-/

namespace ProgramSlice

open Handle

variable {κ ν : Type} [Handle κ]

/-- Entries in ascending order of their keys, each key once. -/
structure HandleMap (κ ν : Type) [Handle κ] where
  /-- The entries, smallest key first. -/
  toList : List (κ × ν)
  /-- No key is repeated or out of order. -/
  ascending : toList.Pairwise fun p q => Before p.1 q.1

namespace HandleMap

/-! ## Operations -/

/-- Bind a key at its place in an ascending list of entries, replacing what it was bound to. -/
def insertAscending (k : κ) (v : ν) : List (κ × ν) → List (κ × ν)
  | [] => [(k, v)]
  | (l, w) :: rest =>
      if number k < number l then (k, v) :: (l, w) :: rest
      else if number k = number l then (k, v) :: rest
      else (l, w) :: insertAscending k v rest

theorem key_mem_insertAscending {k : κ} {v : ν} {p : κ × ν} {entries : List (κ × ν)}
    (h : p ∈ insertAscending k v entries) : p.1 = k ∨ p ∈ entries := by
  induction entries with
  | nil => exact Or.inl (by simp [insertAscending] at h; rw [h])
  | cons e rest ih =>
      obtain ⟨l, w⟩ := e
      unfold insertAscending at h
      split at h
      · rcases List.mem_cons.mp h with rfl | h
        · exact Or.inl rfl
        · exact Or.inr h
      · split at h
        · rcases List.mem_cons.mp h with rfl | h
          · exact Or.inl rfl
          · exact Or.inr (List.mem_cons_of_mem _ h)
        · rcases List.mem_cons.mp h with rfl | h
          · exact Or.inr List.mem_cons_self
          · exact (ih h).imp_right (List.mem_cons_of_mem _)

theorem ascending_insertAscending (k : κ) (v : ν) {entries : List (κ × ν)}
    (h : entries.Pairwise fun p q => Before p.1 q.1) :
    (insertAscending k v entries).Pairwise fun p q => Before p.1 q.1 := by
  induction entries with
  | nil => simp [insertAscending]
  | cons e rest ih =>
      obtain ⟨l, w⟩ := e
      rw [List.pairwise_cons] at h
      unfold insertAscending
      split
      · next hkl =>
        rw [List.pairwise_cons, List.pairwise_cons]
        refine ⟨fun p hp => ?_, h⟩
        rcases List.mem_cons.mp hp with rfl | hp
        · exact hkl
        · exact Nat.lt_trans hkl (h.1 p hp)
      · split
        · next hkl =>
          rw [List.pairwise_cons]
          refine ⟨fun p hp => ?_, h.2⟩
          have := h.1 p hp
          show number k < number p.1
          have : number l < number p.1 := this
          omega
        · next hkl hne =>
          rw [List.pairwise_cons]
          refine ⟨fun p hp => ?_, ih h.2⟩
          rcases key_mem_insertAscending hp with hp | hp
          · show number l < number p.1
            rw [hp]; omega
          · exact h.1 p hp

/-- The map without entries. -/
def empty : HandleMap κ ν := ⟨[], List.Pairwise.nil⟩

instance : EmptyCollection (HandleMap κ ν) := ⟨empty⟩

instance : Inhabited (HandleMap κ ν) := ⟨empty⟩

/-- Bind a key, replacing what it was bound to. -/
def insert (m : HandleMap κ ν) (k : κ) (v : ν) : HandleMap κ ν :=
  ⟨insertAscending k v m.toList, ascending_insertAscending k v m.ascending⟩

/-- The value at a key in a list of entries. -/
def lookup (k : κ) : List (κ × ν) → Option ν
  | [] => none
  | (l, w) :: rest => if number l = number k then some w else lookup k rest

/-- The value a key is bound to. -/
def get? (m : HandleMap κ ν) (k : κ) : Option ν := lookup k m.toList

/-- The number of entries. -/
def size (m : HandleMap κ ν) : Nat := m.toList.length

/-! ## The view of a map -/

@[simp] theorem get?_empty (k : κ) : (empty : HandleMap κ ν).get? k = none := rfl

theorem lookup_cons [DecidableEq κ] (k l : κ) (w : ν) (rest : List (κ × ν)) :
    lookup k ((l, w) :: rest) = if l = k then some w else lookup k rest := by
  simp only [lookup, number_inj]

theorem lookup_eq_none_of_before {k : κ} {entries : List (κ × ν)}
    (h : ∀ p ∈ entries, Before k p.1) : lookup k entries = none := by
  induction entries with
  | nil => rfl
  | cons e rest ih =>
      obtain ⟨l, w⟩ := e
      have hkl : number k < number l := h (l, w) List.mem_cons_self
      rw [lookup, if_neg (by omega), ih fun p hp => h p (List.mem_cons_of_mem _ hp)]

theorem lookup_insertAscending [DecidableEq κ] (k j : κ) (v : ν) (entries : List (κ × ν)) :
    lookup j (insertAscending k v entries) = if j = k then some v else lookup j entries := by
  induction entries with
  | nil => simp [insertAscending, lookup_cons, lookup, eq_comm]
  | cons e rest ih =>
      obtain ⟨l, w⟩ := e
      unfold insertAscending
      split
      · simp only [lookup_cons j k, eq_comm (a := k)]
      · split
        · next hkl =>
          obtain rfl := number_injective hkl
          simp only [lookup_cons]
          by_cases hj : k = j
          · simp [hj]
          · simp [hj, Ne.symm hj]
        · next hne =>
          have hlk : l ≠ k := fun h => hne (by rw [h])
          simp only [lookup_cons, ih]
          by_cases hj : l = j
          · subst hj; simp [hlk]
          · simp [hj]

/-- **An insertion changes the answer at its key only.** -/
theorem get?_insert [DecidableEq κ] (m : HandleMap κ ν) (k j : κ) (v : ν) :
    (m.insert k v).get? j = if j = k then some v else m.get? j :=
  lookup_insertAscending k j v m.toList

theorem mem_of_lookup {k : κ} {v : ν} {entries : List (κ × ν)} (h : lookup k entries = some v) :
    (k, v) ∈ entries := by
  induction entries with
  | nil => simp [lookup] at h
  | cons e rest ih =>
      obtain ⟨l, w⟩ := e
      rw [lookup] at h
      split at h
      · next hlk => cases h; rw [number_injective hlk]; exact List.mem_cons_self
      · exact List.mem_cons_of_mem _ (ih h)

theorem lookup_of_mem {k : κ} {v : ν} {entries : List (κ × ν)}
    (hasc : entries.Pairwise fun p q => Before p.1 q.1) (h : (k, v) ∈ entries) :
    lookup k entries = some v := by
  induction entries with
  | nil => simp at h
  | cons e rest ih =>
      obtain ⟨l, w⟩ := e
      rw [List.pairwise_cons] at hasc
      rcases List.mem_cons.mp h with heq | h
      · cases heq; simp [lookup]
      · have hlk : number l < number k := hasc.1 (k, v) h
        rw [lookup, if_neg (by omega), ih hasc.2 h]

/-- An entry is listed exactly when its key is bound to its value. -/
theorem mem_toList {m : HandleMap κ ν} {k : κ} {v : ν} :
    (k, v) ∈ m.toList ↔ m.get? k = some v :=
  ⟨lookup_of_mem m.ascending, mem_of_lookup⟩

theorem eq_of_lookup {l m : List (κ × ν)} (hl : l.Pairwise fun p q => Before p.1 q.1)
    (hm : m.Pairwise fun p q => Before p.1 q.1) (h : ∀ k, lookup k l = lookup k m) : l = m := by
  induction l generalizing m with
  | nil =>
      cases m with
      | nil => rfl
      | cons e m => have := h e.1; simp [lookup] at this
  | cons a l ih =>
      cases m with
      | nil => have := h a.1; simp [lookup] at this
      | cons b m =>
          rw [List.pairwise_cons] at hl hm
          obtain ⟨ka, va⟩ := a
          obtain ⟨kb, vb⟩ := b
          have hkey : ka = kb := by
            rcases trichotomy ka kb with hlt | heq | hgt
            · have hnone : lookup ka ((kb, vb) :: m) = none :=
                lookup_eq_none_of_before fun p hp => by
                  rcases List.mem_cons.mp hp with rfl | hp
                  · exact hlt
                  · exact Nat.lt_trans hlt (hm.1 p hp)
              have := h ka
              rw [hnone] at this
              simp [lookup] at this
            · exact heq
            · have hnone : lookup kb ((ka, va) :: l) = none :=
                lookup_eq_none_of_before fun p hp => by
                  rcases List.mem_cons.mp hp with rfl | hp
                  · exact hgt
                  · exact Nat.lt_trans hgt (hl.1 p hp)
              have := h kb
              rw [hnone] at this
              simp [lookup] at this
          subst hkey
          have hval : va = vb := by have := h ka; simpa [lookup] using this
          subst hval
          refine congrArg ((ka, va) :: ·) (ih hl.2 hm.2 fun k => ?_)
          by_cases hk : number ka = number k
          · obtain rfl := number_injective hk
            rw [lookup_eq_none_of_before fun p hp => hl.1 p hp,
              lookup_eq_none_of_before fun p hp => hm.1 p hp]
          · have := h k
            simpa [lookup, hk] using this

/-- **A map is its answers.**  Two maps that answer every key alike are equal. -/
@[ext] theorem ext {l m : HandleMap κ ν} (h : ∀ k, l.get? k = m.get? k) : l = m := by
  cases l; cases m
  simp only [mk.injEq]
  exact eq_of_lookup ‹_› ‹_› h

theorem toList_inj {l m : HandleMap κ ν} : l.toList = m.toList ↔ l = m :=
  ⟨fun h => ext fun k => by simp [get?, h], fun h => h ▸ rfl⟩

instance [DecidableEq κ] [DecidableEq ν] : DecidableEq (HandleMap κ ν) := fun l m =>
  decidable_of_iff (l.toList = m.toList) toList_inj

end HandleMap

end ProgramSlice
