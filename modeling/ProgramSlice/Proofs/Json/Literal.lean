import Mathlib.Tactic
import ProgramSlice.Json.Reader
import ProgramSlice.Json.Writer

/-!
# Reading back what is written without nesting

Strings and whole numbers are read back from what is written for them.

* **Strings.**  Each character is written as one unit, escaped or not, and `readUnits_escapeChar`
  reads this unit back; a string is a run of such units up to its closing quote
  (`readString_render`).
* **Numbers.**  A number has no closing mark: it ends where the text cannot go on with it
  (`EndsNumber`).  The digits of a positive number start with no zero, so all of them are read
  (`readNumber_renderInteger`).
-/

namespace ProgramSlice.Json

/-! ## Strings -/

/-- The four digits of an escape for a control character are read back. -/
theorem hexNumber?_code {n : Nat} (h : n < 256) :
    Text.hexNumber? ['0', '0', Text.hexDigit (n / 16), Text.hexDigit (n % 16)] = some n := by
  have hhigh : Text.hexValue? (Text.hexDigit (n / 16)) = some (n / 16) :=
    Text.hexValue?_hexDigit (by omega)
  have hlow : Text.hexValue? (Text.hexDigit (n % 16)) = some (n % 16) :=
    Text.hexValue?_hexDigit (by omega)
  have hzero : Text.hexValue? '0' = some 0 := by decide
  have hsum : n / 16 * 16 + n % 16 = n := by omega
  simp [Text.hexNumber?, hhigh, hlow, hzero, hsum]

/-- A control character is escaped by a letter or by its number. -/
theorem readUnits_control {c : Char} (hc : c.toNat < 0x20) (hquote : c ≠ '"') (hback : c ≠ '\\')
    (rest : List Char) :
    readUnits (escapeChar c ++ rest) = (readUnits rest).map (consUnit (.char c)) := by
  have hcode : unitOfCode c.toNat = .char c := by
    have hlow : ¬ 0xD800 ≤ c.toNat := by omega
    simp [unitOfCode, hlow, Char.ofNat_toNat]
  have hletter : ∀ e : Char, c.toNat = e.toNat → c = e := by
    intro e he
    rw [← Char.ofNat_toNat c, he, Char.ofNat_toNat]
  rw [escapeChar, if_neg hquote, if_neg hback, if_pos hc]
  split_ifs with hb ht hn hf hr
  · obtain rfl := hletter '\x08' hb
    rfl
  · obtain rfl := hletter '\t' ht
    rfl
  · obtain rfl := hletter '\n' hn
    rfl
  · obtain rfl := hletter '\x0c' hf
    rfl
  · obtain rfl := hletter '\r' hr
    rfl
  · simp only [List.cons_append, List.nil_append]
    rw [readUnits, hexNumber?_code (by omega), ← hcode]

/-- **A character is read back as one unit.** -/
theorem readUnits_escapeChar (c : Char) (rest : List Char) :
    readUnits (escapeChar c ++ rest) = (readUnits rest).map (consUnit (.char c)) := by
  by_cases hquote : c = '"'
  · subst hquote
    rfl
  by_cases hback : c = '\\'
  · subst hback
    rfl
  by_cases hc : c.toNat < 0x20
  · exact readUnits_control hc hquote hback rest
  · have hself : escapeChar c = [c] := by
      rw [escapeChar, if_neg hquote, if_neg hback, if_neg hc]
    rw [hself, List.singleton_append, readUnits.eq_def]
    -- none of the patterns before the last one starts with such a character
    split <;> simp_all

theorem readUnits_flatMap (cs rest : List Char) :
    readUnits (cs.flatMap escapeChar ++ '"' :: rest) = some (cs.map .char, rest) := by
  induction cs with
  | nil => rfl
  | cons c cs ih =>
      rw [List.flatMap_cons, List.append_assoc, readUnits_escapeChar, ih]
      rfl

theorem joinUnits_map (cs : List Char) : joinUnits (cs.map .char) = some cs := by
  induction cs with
  | nil => rfl
  | cons c cs ih =>
      rw [List.map_cons, joinUnits, ih]
      rfl

theorem renderString_append (s : String) (rest : List Char) :
    renderString s ++ rest = '"' :: (s.toList.flatMap escapeChar ++ '"' :: rest) := by
  simp [renderString]

/-- **A string is read back,** whatever characters it has. -/
theorem readString_render (s : String) (rest : List Char) :
    readString (s.toList.flatMap escapeChar ++ '"' :: rest) = some (some s, rest) := by
  rw [readString, readUnits_flatMap]
  simp [joinUnits_map]

/-! ## Numbers -/

/-- A text that stands behind a number ends it: it does not start with a character that the number
could go on with. -/
def EndsNumber (rest : List Char) : Prop :=
  ∀ c ∈ rest.head?, c.isDigit = false ∧ c ≠ '.' ∧ c ≠ 'e' ∧ c ≠ 'E'

theorem EndsNumber.nil : EndsNumber [] := by simp [EndsNumber]

theorem EndsNumber.cons {c : Char} {rest : List Char}
    (h : c.isDigit = false ∧ c ≠ '.' ∧ c ≠ 'e' ∧ c ≠ 'E') : EndsNumber (c :: rest) := by
  intro d hd
  obtain rfl : c = d := by simpa using hd
  exact h

theorem EndsNumber.takeWhile_eq_nil {rest : List Char} (h : EndsNumber rest) :
    rest.takeWhile Char.isDigit = [] := by
  cases rest with
  | nil => rfl
  | cons c rest => simp [(h c rfl).1]

theorem EndsNumber.dropWhile_eq {rest : List Char} (h : EndsNumber rest) :
    rest.dropWhile Char.isDigit = rest := by
  cases rest with
  | nil => rfl
  | cons c rest => simp [(h c rfl).1]

theorem EndsNumber.readFraction {rest : List Char} (h : EndsNumber rest) :
    readFraction rest = some ([], rest) := by
  rw [readFraction.eq_def]
  split
  · exact absurd rfl (h _ rfl).2.1
  · rfl

theorem EndsNumber.readExponent {rest : List Char} (h : EndsNumber rest) :
    readExponent rest = some ([], rest) := by
  rw [readExponent.eq_def]
  split
  · exact absurd rfl (h _ rfl).2.2.1
  · exact absurd rfl (h _ rfl).2.2.2
  · rfl

theorem isDigit_of_mem_toDigits {n : Nat} {c : Char} (h : c ∈ Nat.toDigits 10 n) :
    c.isDigit = true := Nat.isDigit_of_mem_toDigits (by decide) (by decide) h

theorem exists_toDigits_cons (n : Nat) :
    ∃ d ds, Nat.toDigits 10 n = d :: ds ∧ d.isDigit = true := by
  obtain ⟨d, ds, hds⟩ := List.exists_cons_of_ne_nil (Nat.toDigits_ne_nil : Nat.toDigits 10 n ≠ [])
  exact ⟨d, ds, hds, isDigit_of_mem_toDigits (n := n) (by simp [hds])⟩

/-- The digits of a positive number start with no zero. -/
theorem toDigits_eq_cons {n : Nat} (h : 0 < n) : ∃ d ds, Nat.toDigits 10 n = d :: ds ∧ d ≠ '0' := by
  induction n using Nat.strong_induction_on with
  | _ n ih =>
      by_cases hn : n < 10
      · have hdigit : ∀ m < 10, 0 < m → Nat.digitChar m ≠ '0' := by decide
        exact ⟨_, [], Nat.toDigits_of_lt_base hn, hdigit n hn h⟩
      · obtain ⟨d, ds, hds, hd⟩ := ih (n / 10) (by omega) (by omega)
        refine ⟨d, ds ++ [Nat.digitChar (n % 10)], ?_, hd⟩
        rw [Nat.toDigits_of_base_le (by decide) (by omega), hds, List.cons_append]

/-- The digits of a number are read as its integer part. -/
theorem readIntegerDigits_toDigits (n : Nat) {rest : List Char} (h : EndsNumber rest) :
    readIntegerDigits (Nat.toDigits 10 n ++ rest) = some (Nat.toDigits 10 n, rest) := by
  rcases Nat.eq_zero_or_pos n with rfl | hn
  · rfl
  · have hall : ∀ c ∈ Nat.toDigits 10 n, c.isDigit = true := fun _ => isDigit_of_mem_toDigits
    have htake : (Nat.toDigits 10 n ++ rest).takeWhile Char.isDigit = Nat.toDigits 10 n := by
      rw [List.takeWhile_append_of_pos hall, h.takeWhile_eq_nil, List.append_nil]
    have hdrop : (Nat.toDigits 10 n ++ rest).dropWhile Char.isDigit = rest := by
      rw [List.dropWhile_append_of_pos hall, h.dropWhile_eq]
    obtain ⟨d, ds, hds, hd⟩ := toDigits_eq_cons hn
    have hdigit : d.isDigit = true := hall d (by simp [hds])
    rw [hds] at htake hdrop ⊢
    rw [List.cons_append] at htake hdrop ⊢
    rw [readIntegerDigits.eq_def]
    split
    · next heq => exact absurd (List.cons.inj heq).1 hd
    · next heq =>
      obtain ⟨rfl, rfl⟩ := List.cons.inj heq
      rw [if_pos hdigit, htake, hdrop]
    · next heq => exact absurd heq (by simp)

theorem readUnsigned_toDigits (negative : Bool) (n : Nat) {rest : List Char} (h : EndsNumber rest) :
    readUnsigned negative (Nat.toDigits 10 n ++ rest)
      = some (numberOf negative (Nat.toDigits 10 n) [], rest) := by
  simp [readUnsigned, readIntegerDigits_toDigits n h, h.readFraction, h.readExponent]

/-- A whole number begins with its sign or with a digit. -/
theorem exists_renderInteger_cons (n : Int) :
    ∃ c cs, renderInteger n = c :: cs ∧ (c = '-' ∨ c.isDigit = true) := by
  cases n with
  | ofNat n =>
      obtain ⟨d, ds, hds, hd⟩ := exists_toDigits_cons n
      exact ⟨d, ds, hds, Or.inr hd⟩
  | negSucc n => exact ⟨'-', _, rfl, Or.inl rfl⟩

/-- **A whole number is read back,** if what stands behind it ends it. -/
theorem readNumber_renderInteger (n : Int) {rest : List Char} (h : EndsNumber rest) :
    readNumber (renderInteger n ++ rest) = some (.integer n, rest) := by
  cases n with
  | ofNat n =>
      have hvalue : numberOf false (Nat.toDigits 10 n) [] = .integer n := by
        simp [numberOf, Nat.ofDigitChars_ten_toDigits]
      obtain ⟨d, ds, hds, hd⟩ := exists_toDigits_cons n
      rw [renderInteger, readNumber.eq_def]
      split
      · next heq =>
        -- no digit is a sign
        rw [hds] at heq
        obtain rfl := (List.cons.inj heq).1
        exact absurd hd (by decide)
      · rw [readUnsigned_toDigits false n h, hvalue]
        rfl
  | negSucc n =>
      obtain ⟨d, ds, hds, hd⟩ := toDigits_eq_cons (Nat.succ_pos n)
      have hzero : Nat.toDigits 10 (n + 1) ≠ ['0'] := by
        rw [hds]
        intro heq
        exact hd (List.cons.inj heq).1
      have hvalue : numberOf true (Nat.toDigits 10 (n + 1)) [] = .integer (.negSucc n) := by
        simp [numberOf, hzero, Nat.ofDigitChars_ten_toDigits, Int.negSucc_eq]
      rw [renderInteger, List.cons_append, readNumber, readUnsigned_toDigits true (n + 1) h, hvalue]

end ProgramSlice.Json
