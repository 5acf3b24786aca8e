import Mathlib.Tactic
import ProgramSlice.Interchange.Body

/-!
# Forms that are read back

A written form is *lawful* if every value is read back from what is written for it, from a text as
well as from memory (`LawfulForm`).  Lawful forms of parts make lawful forms of lists and records:
what a list is written as is read back item by item, and in what a record is written as each of its
fields is found once (`record?_object`).  A part that may be absent is read back if no part that is
there is written as null (`getOptional_toJson`).

The form of counts is not lawful, since a count is read only if it fits a word of 64 bits.
-/

namespace ProgramSlice

/-! ## Fields by their names -/

section Fields

variable {β : Type}

theorem filter_name_of_notMem {fields : List (String × β)} {name : String}
    (h : name ∉ fields.map Prod.fst) : fields.filter (·.1 = name) = [] := by
  rw [List.filter_eq_nil_iff]
  rintro field hfield hname
  exact h (List.mem_map.mpr ⟨field, hfield, by simpa using hname⟩)

theorem filter_name_of_mem {fields : List (String × β)} (h : (fields.map Prod.fst).Nodup)
    {field : String × β} (hfield : field ∈ fields) :
    fields.filter (·.1 = field.1) = [field] := by
  induction fields with
  | nil => exact absurd hfield List.not_mem_nil
  | cons first rest ih =>
      rw [List.map_cons, List.nodup_cons] at h
      rcases List.mem_cons.mp hfield with rfl | hrest
      · rw [List.filter_cons_of_pos (by simp), filter_name_of_notMem h.1]
      · have hname : first.1 ≠ field.1 := by
          intro heq
          exact h.1 (heq ▸ List.mem_map_of_mem hrest)
        rw [List.filter_cons_of_neg (by simpa using hname), ih h.2 hrest]

end Fields

/-- A written form from which every value is read back. -/
class LawfulForm (α : Type) [JsonForm α] : Prop where
  /-- What is written for a value is read as the value. -/
  ofJson?_toJson : ∀ (origin : Json.Origin) (a : α), ofJson? origin (toJson a) = some a

open LawfulForm (ofJson?_toJson)

namespace Json

variable {α : Type} [JsonForm α] [LawfulForm α]

/-! ## Records -/

/-- Where no name is repeated, each field is found once. -/
theorem fieldOnce?_of_mem {fields : List (String × Json)} (h : (fields.map Prod.fst).Nodup)
    {field : String × Json} (hfield : field ∈ fields) :
    fieldOnce? fields field.1 = some (some field.2) := by
  rw [fieldOnce?, filter_name_of_mem h hfield]

/-- **The fields of a record are found in what it is written as.** -/
theorem record?_object {names : List String} {fields : List (String × Json)}
    (hnames : fields.map Prod.fst = names) (hnodup : names.Nodup) :
    record? names (.object fields) = some (fields.map fun field => some field.2) := by
  subst hnames
  have hfind : ∀ part ⊆ fields, (part.map Prod.fst).mapM (fieldOnce? fields)
      = some (part.map fun field => some field.2) := by
    intro part hpart
    induction part with
    | nil => rfl
    | cons field part ih =>
        rw [List.map_cons, List.mapM_cons, fieldOnce?_of_mem hnodup (hpart List.mem_cons_self),
          ih (List.subset_of_cons_subset hpart)]
        rfl
  exact hfind fields (List.Subset.refl _)

/-- The content of a variant is written as an object, which does from every origin. -/
theorem content?_object {names : List String} {fields : List (String × Json)} (origin : Origin)
    (hnames : fields.map Prod.fst = names) (hnodup : names.Nodup) :
    content? origin names (.object fields) = some (fields.map fun field => some field.2) := by
  rw [← record?_object hnames hnodup]
  cases origin with
  | text => rfl
  | memory => rfl

@[simp] theorem get_toJson (origin : Origin) (a : α) : get origin (some (toJson a)) = some a :=
  ofJson?_toJson origin a

/-! ## Absent parts -/

theorem optional_some {β : Type} {read : Json → Option β} {j : Json} (h : j ≠ .null) :
    optional read (some j) = (read j).map some := by
  cases j with
  | null => exact absurd rfl h
  | bool value => rfl
  | integer value => rfl
  | decimal literal => rfl
  | string value => rfl
  | array items => rfl
  | object fields => rfl
  | withheld => rfl

/-- **A part that may be absent** is read back, since null is left for its absence. -/
theorem getOptional_toJson (h : ∀ a : α, toJson a ≠ .null) (origin : Origin) (o : Option α) :
    getOptional origin (some (toJson o)) = some o := by
  cases o with
  | none => rfl
  | some a =>
      show optional (ofJson? origin) (some (toJson a)) = some (some a)
      rw [optional_some (h a), ofJson?_toJson, Option.map_some]

end Json

/-! ## Forms of basic types -/

instance : LawfulForm String := ⟨fun _ _ => rfl⟩

instance : LawfulForm UInt32 where
  ofJson?_toJson := by
    intro origin n
    have hread : (Json.ofNat n.toNat).natBelow? (2 ^ 32) = some n.toNat := if_pos n.toNat_lt
    show ((Json.ofNat n.toNat).natBelow? (2 ^ 32)).map UInt32.ofNat = some n
    rw [hread, Option.map_some, UInt32.ofNat_toNat]

instance : LawfulForm UInt64 where
  ofJson?_toJson := by
    intro origin n
    have hread : (Json.ofNat n.toNat).natBelow? (2 ^ 64) = some n.toNat := if_pos n.toNat_lt
    show ((Json.ofNat n.toNat).natBelow? (2 ^ 64)).map UInt64.ofNat = some n
    rw [hread, Option.map_some, UInt64.ofNat_toNat]

instance : LawfulForm Int64 where
  ofJson?_toJson := by
    intro origin n
    have hrange : (decide (Int64.minValue.toInt ≤ n.toInt)
        && decide (n.toInt ≤ Int64.maxValue.toInt)) = true := by
      rw [Bool.and_eq_true, decide_eq_true_eq, decide_eq_true_eq]
      exact ⟨n.minValue_le_toInt, n.toInt_le⟩
    show (if _ then some (Int64.ofInt n.toInt) else none) = some n
    rw [if_pos hrange, Int64.ofInt_toInt]

instance {α : Type} [JsonForm α] [LawfulForm α] : LawfulForm (List α) where
  ofJson?_toJson := by
    intro origin l
    show (l.map toJson).mapM (ofJson? origin) = some l
    induction l with
    | nil => rfl
    | cons a l ih =>
        rw [List.map_cons, List.mapM_cons, ofJson?_toJson, ih]
        rfl

instance : LawfulForm SymbolId where
  ofJson?_toJson := by
    intro origin s
    show (ofJson? origin (toJson s.index)).map SymbolId.mk = some s
    rw [ofJson?_toJson, Option.map_some]

instance : LawfulForm OperationId where
  ofJson?_toJson := by
    intro origin o
    show (ofJson? origin (toJson o.index)).map OperationId.mk = some o
    rw [ofJson?_toJson, Option.map_some]

end ProgramSlice
