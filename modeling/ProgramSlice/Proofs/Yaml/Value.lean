import ProgramSlice.Proofs.Json.Literal
import ProgramSlice.Proofs.Yaml.Mapping
import ProgramSlice.Yaml.Node.Record

/-!
# What words stand for

Truth values and numbers are written as words.  The digits of a number are read one after the other,
the first of them being no zero unless it is the only one, so no digit is lost and none is taken for
the mark of another base (`numberOfText?_toString`).  The nodes of such words are read back as the
values that were written, whatever document they stand in, and a mapping of words as its fields.
-/

namespace ProgramSlice.Yaml

variable {n : Nat}

/-! ## Numbers -/

theorem isWordChar_of_isDigit {c : Char} (h : c.isDigit = true) : isWordChar c = true := by
  simp [isWordChar, Char.isAlphanum, h]

theorem toList_toString (n : Nat) : (toString n).toList = Nat.toDigits 10 n := Nat.toList_repr

/-- **A number is a word.** -/
theorem isWord_number (n : Nat) : IsWord (toString n).toList := by
  rw [toList_toString]
  exact ⟨Nat.toDigits_ne_nil, fun _ hc => isWordChar_of_isDigit (Json.isDigit_of_mem_toDigits hc)⟩

theorem digitValue?_of_isDigit {c : Char} (h : c.isDigit = true) :
    digitValue? 10 c = some (c.toNat - '0'.toNat) := by
  obtain ⟨hlow, hhigh⟩ := Char.isDigit_iff_toNat.mp h
  have hrange : '0' ≤ c ∧ c ≤ '9' := by
    simp only [Char.le_def, UInt32.le_iff_toNat_le]
    exact ⟨hlow, hhigh⟩
  have hvalue : Text.hexValue? c = some (c.toNat - '0'.toNat) := by
    simp [Text.hexValue?, hrange]
  have hsmall : c.toNat - '0'.toNat < 10 := by
    have hends : '0'.toNat = 48 ∧ '9'.toNat = 57 := ⟨rfl, rfl⟩
    omega
  simp only [digitValue?, hvalue, Option.filter_some, hsmall, decide_true, if_true]

/-- Digits are read behind those that have been read so far. -/
theorem foldlM_digits {ds : List Char} (hds : ∀ c ∈ ds, c.isDigit = true) (sofar : Nat) :
    ds.foldlM (fun m c => (digitValue? 10 c).map (m * 10 + ·)) sofar
      = some (Nat.ofDigitChars 10 ds sofar) := by
  induction ds generalizing sofar with
  | nil => rfl
  | cons c ds ih =>
      rw [List.foldlM_cons, digitValue?_of_isDigit (hds c List.mem_cons_self), Option.map_some,
        Nat.mul_comm]
      exact ih (fun d hd => hds d (List.mem_cons_of_mem c hd)) _

theorem numberOfDigits?_toDigits (n : Nat) : numberOfDigits? 10 (Nat.toDigits 10 n) = some n := by
  have hdigits := foldlM_digits (fun _ => Json.isDigit_of_mem_toDigits (n := n)) 0
  rw [Nat.ofDigitChars_ten_toDigits] at hdigits
  obtain ⟨d, ds, hds, -⟩ := Json.exists_toDigits_cons n
  rw [hds] at hdigits ⊢
  exact hdigits

/-- The digits of a positive number start with no zero, so that all of them count. -/
theorem magnitude?_toDigits (n : Nat) : magnitude? (Nat.toDigits 10 n) = some n := by
  rcases Nat.eq_zero_or_pos n with rfl | hn
  · rfl
  · obtain ⟨d, ds, hds, hd⟩ := Json.toDigits_eq_cons hn
    have hzero : hasLeadingZero (d :: ds) = false := by
      rw [hasLeadingZero.eq_def]
      split
      · next heq => exact absurd (List.cons.inj heq).1 hd
      · rfl
    have hdigits := numberOfDigits?_toDigits n
    rw [hds] at hdigits ⊢
    rw [magnitude?.eq_def]
    split
    · next heq => exact absurd (List.cons.inj heq).1 hd
    · next heq => exact absurd (List.cons.inj heq).1 hd
    · next heq => exact absurd (List.cons.inj heq).1 hd
    · rw [hzero, hdigits]
      rfl

/-- **A number is read back from its digits.** -/
theorem numberOfText?_toString (n : Nat) : numberOfText? (toString n) = some n := by
  obtain ⟨d, ds, hds, hd⟩ := Json.exists_toDigits_cons n
  rw [numberOfText?, toList_toString, hds]
  split
  · next heq =>
    -- no digit is a sign
    obtain rfl := (List.cons.inj heq).1
    exact absurd hd (by decide)
  · rw [← hds, magnitude?_toDigits]

/-- A number says that there is a value. -/
theorem isNull?_of_number {text : String} (h : numberOfText? text = some n) :
    Scalar.isNull? { text } = some false := by
  have hother : ∀ t ∈ ["", "null", "Null", "NULL", "~"], numberOfText? t = none := by decide
  have hne : ∀ t ∈ ["", "null", "Null", "NULL", "~"], text ≠ t := by
    rintro t ht rfl
    rw [hother text ht] at h
    cases h
  simp [Scalar.isNull?, isNullText, hne]

/-! ## Nodes of words -/

namespace Node

variable (root : Node)

theorem scalar?_wordNode (w : List Char) :
    root.scalar? (wordNode w) = some { text := String.ofList w } := rfl

/-- A number is not passed over as null. -/
theorem optional?_wordNode {α : Type} (read : Node → Option α) :
    optional? root read (some (wordNode (toString n).toList))
      = (read (wordNode (toString n).toList)).map some := by
  rw [optional?, scalar?_wordNode, String.ofList_toList, Option.map_some,
    isNull?_of_number (numberOfText?_toString n)]

/-- **A truth value is read back.** -/
theorem bool?_wordNode (b : Bool) : root.bool? (wordNode (toString b).toList) = some b := by
  rw [bool?, scalar?_wordNode]
  cases b <;> decide

/-- **A number below the bound is read back.** -/
theorem numberBelow?_wordNode {bound : Nat} (hn : n < bound) :
    root.numberBelow? bound (wordNode (toString n).toList) = some n := by
  have hnumber : Scalar.number? { text := toString n } = some n := numberOfText?_toString n
  rw [numberBelow?, scalar?_wordNode, String.ofList_toList, Option.bind_some, hnumber,
    Option.filter_some, if_pos (decide_eq_true hn)]

/-- **The fields of a mapping** are its keys with the nodes of their values. -/
theorem fields?_mappingNode (items : List Item) :
    root.fields? (mappingNode items) = some (items.map fun i => (String.ofList i.key, i.node)) := by
  show (items.map fun i => (wordNode i.key, i.node)).mapM _ = _
  induction items with
  | nil => rfl
  | cons i items ih =>
      rw [List.map_cons, List.mapM_cons, ih]
      rfl

end Node

end ProgramSlice.Yaml
