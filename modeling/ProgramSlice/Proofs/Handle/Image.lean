import Mathlib.Logic.Function.Basic
import Mathlib.Tactic
import ProgramSlice.Handle.Map
import ProgramSlice.Handle.Set

/-!
# Sets and maps under other names

If handles are given other names, sets and maps of them transport as images.  They are kept in
ascending order and other names may stand in another order, so an image is not the list of the new
names but is filled anew.

The image of a set holds the new names of its members (`HandleSet.mem_image`).  A map is only taken
along names that keep its keys apart, and then the image binds the new name of a key to the new name
of its value and binds nothing else (`HandleMap.get?_image`).
-/

namespace ProgramSlice

open Handle

/-! ## Sets -/

namespace HandleSet

variable {α β : Type} [Handle α] [Handle β] {f : α → β} {a : α} {b : β} {s : HandleSet α}

/-- The set of the new names of the members. -/
def image (f : α → β) (s : HandleSet α) : HandleSet β := ofList (s.toList.map f)

@[simp] theorem mem_image : b ∈ s.image f ↔ ∃ a ∈ s, f a = b := by
  rw [image, mem_ofList, List.mem_map]
  rfl

@[simp] theorem image_insert (f : α → β) (a : α) (s : HandleSet α) :
    (s.insert a).image f = (s.image f).insert (f a) := by
  ext b
  simp [eq_comm]

end HandleSet

/-! ## Maps -/

namespace HandleMap

variable {κ ν κ' ν' : Type} [Handle κ] [Handle κ'] {f : κ → κ'} {g : ν → ν'} {k : κ} {k' : κ'}
  {v : ν} {v' : ν'} {m : HandleMap κ ν}

/-- The map with new names for its keys and its values. -/
def image (f : κ → κ') (g : ν → ν') (m : HandleMap κ ν) : HandleMap κ' ν' :=
  m.toList.foldr (fun entry renamed => renamed.insert (f entry.1) (g entry.2)) empty

/-- **The entries of an image** are the images of the entries. -/
theorem get?_image [DecidableEq κ'] (hf : Function.Injective f) :
    (m.image f g).get? k' = some v' ↔ ∃ k v, m.get? k = some v ∧ f k = k' ∧ g v = v' := by
  have hentries : ∀ entries : List (κ × ν), entries.Pairwise (fun p q => Before p.1 q.1) →
      ((entries.foldr (fun entry (renamed : HandleMap κ' ν') =>
          renamed.insert (f entry.1) (g entry.2)) empty).get? k' = some v' ↔
        ∃ entry ∈ entries, f entry.1 = k' ∧ g entry.2 = v') := by
    intro entries hascending
    induction entries with
    | nil => simp
    | cons entry rest ih =>
        obtain ⟨hfirst, hrest⟩ := List.pairwise_cons.mp hascending
        rw [List.foldr_cons, get?_insert]
        by_cases hkey : k' = f entry.1
        · -- no later entry has the key of the first one
          have hlater : ∀ later ∈ rest, f later.1 ≠ k' := by
            intro later hlater heq
            have hbefore : number entry.1 < number later.1 := hfirst later hlater
            rw [hf (heq.trans hkey)] at hbefore
            exact Nat.lt_irrefl _ hbefore
          subst hkey
          simp only [if_true, Option.some.injEq, List.mem_cons, exists_eq_or_imp, true_and]
          refine (or_iff_left ?_).symm
          rintro ⟨later, hmem, heq, -⟩
          exact hlater later hmem heq
        · rw [if_neg hkey, ih hrest]
          simp [Ne.symm hkey]
  rw [image, hentries _ m.ascending]
  simp only [Prod.exists, ← mem_toList]

theorem get?_image_apply [DecidableEq κ'] (hf : Function.Injective f) (k : κ) :
    (m.image f g).get? (f k) = (m.get? k).map g := by
  refine Option.ext fun v' => ?_
  rw [get?_image hf, Option.map_eq_some_iff]
  constructor
  · rintro ⟨j, v, hv, hj, hg⟩
    exact ⟨v, hf hj ▸ hv, hg⟩
  · rintro ⟨v, hv, hg⟩
    exact ⟨k, v, hv, rfl, hg⟩

/-- Binding a key and naming it anew is binding its new name. -/
theorem image_insert [DecidableEq κ] [DecidableEq κ'] (hf : Function.Injective f) (k : κ) (v : ν) :
    (m.insert k v).image f g = (m.image f g).insert (f k) (g v) := by
  refine ext fun k' => Option.ext fun v' => ?_
  rw [get?_insert, get?_image hf]
  by_cases hkey : k' = f k
  · subst hkey
    simp [hf.eq_iff, get?_insert]
  · rw [if_neg hkey, get?_image hf]
    refine exists_congr fun j => exists_congr fun w => ?_
    by_cases hj : j = k
    · subst hj
      simp [Ne.symm hkey]
    · simp [get?_insert, hj]

end HandleMap

end ProgramSlice
