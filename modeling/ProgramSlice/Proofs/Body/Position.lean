import Mathlib.Order.Monotone.Basic
import Mathlib.Tactic
import ProgramSlice.Body.Block

/-!
# Positions in a traversal

The operations of a body are gone through in one order, and most of what is said of a build is said
of *positions* in it.  The entries of a layout cut the positions into consecutive runs: each
position lies in exactly one entry (`HoldsAt.unique`, `exists_holdsAt`).

An entry is told apart by its place in the layout.  The number recorded with a block may be
repeated and says nothing about where its operations stand.

A position is also a *place* of the block at its entry (`StandsAt`), and what is said of neighbours
in a block is said by places: two positions of one entry that follow each other are two places that
do (`exists_sameBlock_succ_iff`).
-/

namespace ProgramSlice

namespace BlockLayout

variable {l : BlockLayout} {i j k m : Nat} {block : BasicBlock}

/-- The position at which an entry begins. -/
def start (l : BlockLayout) (k : Nat) : Nat := operationCount ⟨l.blocks.take k⟩

/-- The block at entry `k`, which holds the position `i`. -/
def HoldsAt (l : BlockLayout) (k : Nat) (block : BasicBlock) (i : Nat) : Prop :=
  l.blocks[k]? = some block ∧ l.start k ≤ i ∧ i < l.start k + block.operations.length

/-- Two positions lie in one entry. -/
def SameBlock (l : BlockLayout) (i j : Nat) : Prop :=
  ∃ k block, l.HoldsAt k block i ∧ l.HoldsAt k block j

@[simp] theorem start_zero (l : BlockLayout) : l.start 0 = 0 := by
  simp [start, operationCount]

theorem start_succ (h : l.blocks[k]? = some block) :
    l.start (k + 1) = l.start k + block.operations.length := by
  simp [start, operationCount, List.take_add_one, h]

theorem start_mono (l : BlockLayout) : Monotone l.start := by
  refine monotone_nat_of_le_succ fun k => ?_
  cases h : l.blocks[k]? with
  | none => simp [start, operationCount, List.take_add_one, h]
  | some block =>
      rw [start_succ h]
      exact Nat.le_add_right _ _

/-- **A position lies in one entry.** -/
theorem HoldsAt.unique {block' : BasicBlock} (h : l.HoldsAt k block i) (h' : l.HoldsAt m block' i) :
    k = m := by
  obtain ⟨hk, hlow, hhigh⟩ := h
  obtain ⟨hm, hlow', hhigh'⟩ := h'
  rcases Nat.lt_trichotomy k m with hlt | heq | hgt
  · have := l.start_mono (Nat.succ_le_of_lt hlt)
    rw [Nat.succ_eq_add_one, start_succ hk] at this
    omega
  · exact heq
  · have := l.start_mono (Nat.succ_le_of_lt hgt)
    rw [Nat.succ_eq_add_one, start_succ hm] at this
    omega

/-- Every position of the traversal lies in some entry. -/
theorem exists_holdsAt (h : i < l.operations.length) : ∃ k block, l.HoldsAt k block i := by
  rw [length_operations] at h
  -- the first entry that ends behind the position holds it
  have hend : ∃ k, i < l.start k := ⟨l.blocks.length, by rwa [start, List.take_length]⟩
  have hk := Nat.find_spec hend
  have hpos : Nat.find hend ≠ 0 := by
    intro hzero
    rw [hzero, start_zero] at hk
    omega
  obtain ⟨k, hsucc⟩ := Nat.exists_eq_succ_of_ne_zero hpos
  have hlow : l.start k ≤ i := Nat.le_of_not_lt (Nat.find_min hend (by omega))
  rw [hsucc, Nat.succ_eq_add_one] at hk
  cases hblock : l.blocks[k]? with
  | none =>
      have : l.start (k + 1) = l.start k := by
        simp [start, operationCount, List.take_add_one, hblock]
      omega
  | some block =>
      rw [start_succ hblock] at hk
      exact ⟨k, block, hblock, hlow, hk⟩

/-- What is listed entry by entry, one item for each operation, has the item of a position in the
list of its entry. -/
theorem getElem?_flatMap {β : Type} {f : BasicBlock → List β}
    (hf : ∀ b, (f b).length = b.operations.length) (h : l.HoldsAt k block i) :
    (l.blocks.flatMap f)[i]? = (f block)[i - l.start k]? := by
  obtain ⟨hk, hlow, hhigh⟩ := h
  obtain ⟨hlt, hget⟩ := List.getElem?_eq_some_iff.mp hk
  have hsplit : l.blocks = l.blocks.take k ++ block :: l.blocks.drop (k + 1) := by
    rw [← hget, List.cons_getElem_drop_succ, List.take_append_drop]
  have hlength : ((l.blocks.take k).flatMap f).length = l.start k := by
    rw [start, ← length_operations, operations, List.length_flatMap, List.length_flatMap]
    simp only [hf]
  conv_lhs => rw [hsplit, List.flatMap_append, List.flatMap_cons]
  rw [List.getElem?_append_right (by omega), hlength,
    List.getElem?_append_left (by rw [hf]; omega)]

/-- The operation at a position, by the entry that holds it. -/
theorem HoldsAt.getElem?_operations (h : l.HoldsAt k block i) :
    l.operations[i]? = block.operations[i - l.start k]? :=
  getElem?_flatMap (fun _ => rfl) h

/-- Where no operation is listed twice, an operation stands at one position. -/
theorem position_inj {o : OperationId} (hl : l.operations.Nodup) (hi : l.operations[i]? = some o)
    (hj : l.operations[j]? = some o) : i = j :=
  (List.getElem?_inj (List.getElem?_eq_some_iff.mp hi).1 hl).mp (hi.trans hj.symm)

/-- The operations that stand at the first `n` positions. -/
theorem mem_take_operations {o : OperationId} {n : Nat} :
    o ∈ l.operations.take n ↔ ∃ i < n, l.operations[i]? = some o := by
  simp only [List.mem_iff_getElem?, List.getElem?_take, Option.ite_none_right_eq_some]

theorem mem_take_operations_iff_lt {o : OperationId} {n : Nat} (hl : l.operations.Nodup)
    (hi : l.operations[i]? = some o) : o ∈ l.operations.take n ↔ i < n := by
  rw [mem_take_operations]
  constructor
  · rintro ⟨j, hj, hat⟩
    rwa [position_inj hl hi hat]
  · exact fun hlt => ⟨i, hlt, hi⟩

/-! ## Places in blocks -/

/-- The operation stands at the place `i` of the block at entry `k`. -/
def StandsAt (l : BlockLayout) (k i : Nat) (o : OperationId) : Prop :=
  ∃ block, l.blocks[k]? = some block ∧ block.operations[i]? = some o

section Places

variable {a b o : OperationId}

/-- A place of a block is a position of the traversal: as far behind the one at which the entry
begins. -/
theorem standsAt_iff : l.StandsAt k i o ↔
    (∃ block, l.HoldsAt k block (l.start k + i)) ∧ l.operations[l.start k + i]? = some o := by
  constructor
  · rintro ⟨block, hk, ho⟩
    have hi := (List.getElem?_eq_some_iff.mp ho).1
    have hholds : l.HoldsAt k block (l.start k + i) := ⟨hk, by omega, by omega⟩
    refine ⟨⟨block, hholds⟩, ?_⟩
    rw [hholds.getElem?_operations, Nat.add_sub_cancel_left, ho]
  · rintro ⟨⟨block, hholds⟩, ho⟩
    rw [hholds.getElem?_operations, Nat.add_sub_cancel_left] at ho
    exact ⟨block, hholds.1, ho⟩

theorem StandsAt.mem_operations (h : l.StandsAt k i o) : o ∈ l.operations :=
  List.mem_of_getElem? (standsAt_iff.mp h).2

theorem exists_standsAt (h : o ∈ l.operations) : ∃ k i, l.StandsAt k i o := by
  obtain ⟨block, hblock, ho⟩ := List.mem_flatMap.mp h
  obtain ⟨k, hk⟩ := List.mem_iff_getElem?.mp hblock
  obtain ⟨i, hi⟩ := List.mem_iff_getElem?.mp ho
  exact ⟨k, i, block, hk, hi⟩

/-- A place holds one operation. -/
theorem StandsAt.eq (ha : l.StandsAt k i a) (hb : l.StandsAt k i b) : a = b :=
  Option.some.inj ((standsAt_iff.mp ha).2.symm.trans (standsAt_iff.mp hb).2)

/-- **Where no operation is listed twice, an operation stands at one place.** -/
theorem StandsAt.unique (hl : l.operations.Nodup) (h : l.StandsAt k i o) (h' : l.StandsAt m j o) :
    k = m ∧ i = j := by
  obtain ⟨⟨block, hholds⟩, ho⟩ := standsAt_iff.mp h
  obtain ⟨⟨block', hholds'⟩, ho'⟩ := standsAt_iff.mp h'
  have hposition := position_inj hl ho ho'
  rw [← hposition] at hholds'
  obtain rfl := hholds.unique hholds'
  exact ⟨rfl, by omega⟩

/-- The places before a place of a block hold operations, too. -/
theorem StandsAt.exists_of_le (h : l.StandsAt k i o) (hj : j ≤ i) : ∃ n, l.StandsAt k j n := by
  obtain ⟨block, hk, ho⟩ := h
  have hi := (List.getElem?_eq_some_iff.mp ho).1
  exact ⟨_, block, hk, List.getElem?_eq_getElem (hj.trans_lt hi)⟩

/-- Two adjacent positions of one entry are adjacent places of its block. -/
theorem exists_sameBlock_succ_iff :
    (∃ j, l.SameBlock (j + 1) j ∧ l.operations[j + 1]? = some a ∧ l.operations[j]? = some b) ↔
      ∃ k i, l.StandsAt k (i + 1) a ∧ l.StandsAt k i b := by
  constructor
  · rintro ⟨j, ⟨k, block, ha, hb⟩, hat, hbt⟩
    have hj : l.start k + (j - l.start k) = j := Nat.add_sub_cancel' hb.2.1
    refine ⟨k, j - l.start k, standsAt_iff.mpr ?_, standsAt_iff.mpr ?_⟩
    · rw [← Nat.add_assoc, hj]
      exact ⟨⟨block, ha⟩, hat⟩
    · rw [hj]
      exact ⟨⟨block, hb⟩, hbt⟩
  · rintro ⟨k, i, ha, hb⟩
    obtain ⟨⟨block, hholds⟩, hat⟩ := standsAt_iff.mp ha
    obtain ⟨⟨block', hholds'⟩, hbt⟩ := standsAt_iff.mp hb
    obtain rfl := Option.some.inj (hholds.1.symm.trans hholds'.1)
    exact ⟨l.start k + i, ⟨k, block, hholds, hholds'⟩, hat, hbt⟩

end Places

end BlockLayout

end ProgramSlice
