import Mathlib.Tactic
import ProgramSlice.Yaml.Token.Lexer

/-!
# Words on a line

A word is a run of letters, digits and low lines.  None of these characters has a meaning of its own
in YAML, so a word is a plain scalar that is read as it stands.  Two things end it here: the colon
behind a key, and the end of the line, where the reading goes on to the first word of the next line
to see whether that is indented far enough to continue the scalar.

Texts are taken apart as a word and what stands behind it.  `Mark.along` is where a word leads to on
its line.
-/

namespace ProgramSlice.Yaml

/-! ## Characters of words -/

/-- A character of a word: an ASCII letter or digit, or a low line. -/
def isWordChar (c : Char) : Bool := c.isAlphanum || c = '_'

/-- A character that is passed over between tokens, or with which something begins that is. -/
def isGapChar (c : Char) : Bool := isBlankOrBreak c || c = '#' || c = byteOrderMark

theorem isGapChar_eq_false_iff {c : Char} : isGapChar c = false ↔
    isBlank c = false ∧ isBreak c = false ∧ c ≠ '#' ∧ c ≠ byteOrderMark := by
  simp [isGapChar, isBlankOrBreak, and_assoc]

section WordChar

variable {c : Char} (h : isWordChar c = true)

include h

theorem toNat_of_isWordChar : 0x30 ≤ c.toNat ∧ c.toNat ≤ 0x7A := by
  unfold isWordChar Char.isAlphanum Char.isAlpha Char.isUpper Char.isLower Char.isDigit at h
  simp only [Bool.or_eq_true, Bool.and_eq_true, decide_eq_true_eq, ge_iff_le,
    UInt32.le_iff_toNat_le] at h
  change (((0x41 ≤ c.toNat ∧ c.toNat ≤ 0x5A) ∨ (0x61 ≤ c.toNat ∧ c.toNat ≤ 0x7A)) ∨
    (0x30 ≤ c.toNat ∧ c.toNat ≤ 0x39)) ∨ c = '_' at h
  rcases h with h | rfl
  · omega
  · decide

/-- A character of a word is none of the others. -/
theorem ne_of_isWordChar {x : Char} (hx : isWordChar x = false) : c ≠ x := by
  rintro rfl
  rw [h] at hx
  cases hx

theorem isGapChar_of_isWordChar : isGapChar c = false := by
  have hbounds := toNat_of_isWordChar h
  have hne : ∀ x, isWordChar x = false → c ≠ x := fun x => ne_of_isWordChar h
  refine isGapChar_eq_false_iff.mpr ⟨?_, ?_, hne _ (by decide), hne _ (by decide)⟩
  · simp (disch := decide) [isBlank, hne]
  · simp (disch := decide) [isBreak, hne]
    omega

theorem isAllowed_of_isWordChar : isAllowed c = true := by
  obtain ⟨hlow, hhigh⟩ := toNat_of_isWordChar h
  have hlow' : 0x20 ≤ c.toNat := by omega
  have hhigh' : c.toNat ≤ 0x7E := by omega
  simp [isAllowed, hlow', hhigh']

theorem utf8Size_of_isWordChar : c.utf8Size = 1 := by
  have hbounds := toNat_of_isWordChar h
  rw [Char.utf8Size, if_pos]
  rw [UInt32.le_iff_toNat_le]
  exact hbounds.2.trans (by decide)

end WordChar

/-- A run of characters of words. -/
structure IsWord (w : List Char) : Prop where
  /-- There is a character. -/
  ne_nil : w ≠ []
  /-- All characters are those of words. -/
  chars : ∀ c ∈ w, isWordChar c = true

instance (w : List Char) : Decidable (IsWord w) :=
  decidable_of_iff (w ≠ [] ∧ w.all isWordChar = true)
    ⟨fun h => ⟨h.1, List.all_eq_true.mp h.2⟩, fun h => ⟨h.ne_nil, List.all_eq_true.mpr h.chars⟩⟩

variable {w rest : List Char} {m : Mark} {p : Char → Bool}

/-- What a text begins with that begins with a word. -/
theorem IsWord.startsWith_append (hw : IsWord w) (hp : ∀ c, isWordChar c = true → p c = false) :
    startsWith p (w ++ rest) = false := by
  obtain ⟨c, cs, rfl⟩ := List.exists_cons_of_ne_nil hw.ne_nil
  exact hp c (hw.chars c List.mem_cons_self)

theorem IsWord.no_gap (hw : IsWord w) : startsWith isGapChar (w ++ rest) = false :=
  hw.startsWith_append fun _ => isGapChar_of_isWordChar

/-- A text that begins with no gap begins with none of its parts. -/
theorem startsWith_of_no_gap (h : startsWith isGapChar rest = false)
    (hp : ∀ c, p c = true → isGapChar c = true) : startsWith p rest = false := by
  cases rest with
  | nil => rfl
  | cons c rest => exact Bool.eq_false_iff.mpr fun hc => Bool.eq_false_iff.mp h (hp c hc)

theorem no_blank_of_no_gap (h : startsWith isGapChar rest = false) :
    startsWith isBlank rest = false :=
  startsWith_of_no_gap h fun c hc => by simp [isGapChar, isBlankOrBreak, hc]

theorem no_break_of_no_gap (h : startsWith isGapChar rest = false) :
    startsWith isBreak rest = false :=
  startsWith_of_no_gap h fun c hc => by simp [isGapChar, isBlankOrBreak, hc]

/-! ## Along a line -/

/-- So many spaces. -/
def spaces (n : Nat) : List Char := List.replicate n ' '

@[simp] theorem spaces_zero : spaces 0 = [] := rfl

@[simp] theorem length_spaces (n : Nat) : (spaces n).length = n := List.length_replicate

theorem all_spaces (hp : p ' ' = true) {n : Nat} : ∀ c ∈ spaces n, p c = true := by
  intro c hc
  rw [List.eq_of_mem_replicate hc]
  exact hp

/-- Where a mark gets to along characters of its line. -/
def Mark.along (m : Mark) (w : List Char) : Mark :=
  { m with
    offset := m.offset + w.foldl (fun size char => size + char.utf8Size) 0
    column := m.column + w.length }

/-- Where a mark gets to over a line feed. -/
def Mark.overBreak (m : Mark) : Mark := ⟨m.offset + 1, m.line + 1, 0⟩

namespace Mark

@[simp] theorem along_nil (m : Mark) : m.along [] = m := rfl

@[simp] theorem column_along (m : Mark) (w : List Char) :
    (m.along w).column = m.column + w.length := rfl

@[simp] theorem column_overBreak (m : Mark) : m.overBreak.column = 0 := rfl

/-- Each character of a word is one octet. -/
theorem offset_along (hw : IsWord w) : (m.along w).offset = m.offset + w.length := by
  have hsize : ∀ cs : List Char, (∀ c ∈ cs, isWordChar c = true) →
      ∀ n, cs.foldl (fun size char => size + char.utf8Size) n = n + cs.length := by
    intro cs hcs
    induction cs with
    | nil => exact fun n => rfl
    | cons c cs ih =>
        intro n
        rw [List.foldl_cons, utf8Size_of_isWordChar (hcs c List.mem_cons_self),
          ih fun d hd => hcs d (List.mem_cons_of_mem c hd), List.length_cons]
        omega
  rw [along, hsize w hw.chars, Nat.zero_add]

end Mark

namespace Cursor

/-- Moving forward over what stands before a text leads there. -/
theorem forward_append : (⟨w ++ rest, m⟩ : Cursor).forward w.length = ⟨rest, m.along w⟩ := by
  simp [forward, octets, Mark.along]

theorem moveTo_append : (⟨w ++ rest, m⟩ : Cursor).moveTo rest = ⟨rest, m.along w⟩ := by
  have hlength : (w ++ rest).length - rest.length = w.length := by simp
  rw [moveTo, hlength, forward_append]

theorem takeWhile_append (hw : ∀ c ∈ w, p c = true) (hrest : startsWith p rest = false) :
    (w ++ rest).takeWhile p = w := by
  rw [List.takeWhile_append_of_pos hw]
  cases rest with
  | nil => simp
  | cons c rest =>
      have hc : p c = false := hrest
      simp [hc]

theorem skipWhile_append (hw : ∀ c ∈ w, p c = true) (hrest : startsWith p rest = false) :
    (⟨w ++ rest, m⟩ : Cursor).skipWhile p = ⟨rest, m.along w⟩ := by
  rw [skipWhile, takeWhile_append hw hrest, forward_append]

theorem skipWhile_of_startsWith (hrest : startsWith p rest = false) :
    (⟨rest, m⟩ : Cursor).skipWhile p = ⟨rest, m⟩ :=
  skipWhile_append (w := []) (by simp) hrest

theorem readBreak?_of_startsWith (hrest : startsWith isBreak rest = false) :
    (⟨rest, m⟩ : Cursor).readBreak? = none := by
  cases rest with
  | nil => rfl
  | cons c rest =>
      have hc : isBreak c = false := hrest
      have hreturn : c ≠ '\r' := by
        rintro rfl
        exact absurd hc (by decide)
      simp [readBreak?, hc, hreturn]

/-- A line that begins with a word begins with no sign of a document. -/
theorem atDocumentSign_word (hw : IsWord w) :
    (⟨w ++ rest, m⟩ : Cursor).atDocumentSign = false := by
  obtain ⟨c, cs, rfl⟩ := List.exists_cons_of_ne_nil hw.ne_nil
  have hc := hw.chars c List.mem_cons_self
  simp (disch := decide) [atDocumentSign, ne_of_isWordChar hc]

theorem readBreak?_lineFeed :
    (⟨'\n' :: rest, m⟩ : Cursor).readBreak? = some ('\n', ⟨rest, m.overBreak⟩) := rfl

end Cursor

/-! ## Gaps -/

namespace Gap

variable {column n : Nat}

theorem read?_of_no_gap (hrest : startsWith isGapChar rest = false) :
    Gap.read? column ⟨rest, m⟩ = some ({}, ⟨rest, m⟩) := by
  have htake : rest.takeWhile isBlank = [] :=
    Cursor.takeWhile_append (w := []) (by simp) (no_blank_of_no_gap hrest)
  rw [read?, Cursor.skipWhile_of_startsWith (no_blank_of_no_gap hrest),
    Cursor.readBreak?_of_startsWith (no_break_of_no_gap hrest)]
  simp [htake]

/-- **A gap reaches over the end of a line** to where the next one begins with something else. -/
theorem read?_line (hrest : startsWith isGapChar rest = false) :
    Gap.read? column ⟨'\n' :: (spaces n ++ rest), m⟩
      = some (⟨[], ['\n']⟩, ⟨rest, m.overBreak.along (spaces n)⟩) := by
  have hspaces : ∀ c ∈ spaces n, isBlank c = true := all_spaces rfl
  -- there is no tab among the spaces, which would be refused left of the column
  have htab : tabBefore ⟨spaces n ++ rest, m.overBreak⟩ column = false := by
    rw [tabBefore, Cursor.takeWhile_append hspaces (no_blank_of_no_gap hrest)]
    simp [spaces]
  rw [read?, Cursor.skipWhile_of_startsWith rfl, Cursor.readBreak?_lineFeed]
  simp only
  rw [readBreaks?, htab, Cursor.skipWhile_append hspaces (no_blank_of_no_gap hrest),
    Cursor.readBreak?_of_startsWith (no_break_of_no_gap hrest)]
  rfl

end Gap

/-! ## Plain scalars -/

namespace Plain

variable {k : List Char} {column n : Nat}

/-- **A word is read as a word,** if what stands behind it is not. -/
theorem readWord?_append (hw : ∀ c ∈ w, isWordChar c = true)
    (hrest : readWord? false rest = some ([], rest)) :
    readWord? false (w ++ rest) = some (w, rest) := by
  induction w with
  | nil => exact hrest
  | cons c w ih =>
      have hc := hw c List.mem_cons_self
      obtain ⟨hblank, hbreak, -⟩ := isGapChar_eq_false_iff.mp (isGapChar_of_isWordChar hc)
      have hcolon : c ≠ ':' := ne_of_isWordChar hc (by decide)
      rw [List.cons_append, readWord?, ih fun d hd => hw d (List.mem_cons_of_mem c hd)]
      simp [isBlankOrBreak, hblank, hbreak, hcolon]

/-- A scalar is a single word if the gap behind it leads to no word that continues it. -/
theorem read?_word (hw : IsWord w) (hrest : readWord? false rest = some ([], rest)) {gap : Gap}
    {d : Cursor} (hgap : Gap.read? column ⟨rest, m.along w⟩ = some (gap, d))
    (hstop : endsWord rest = false ∨ d.column < column) :
    read? false column ⟨w ++ rest, m⟩ = some ⟨w, gap.isBroken, d⟩ := by
  have hcomment : startsWith (· = '#') (w ++ rest) = false :=
    hw.startsWith_append fun c hc => decide_eq_false (ne_of_isWordChar hc (by decide))
  have hends : (endsWord rest && !rest.isEmpty && (false || decide (column ≤ d.column)))
      = false := by
    rcases hstop with hstop | hstop
    · simp [hstop]
    · simp [Nat.not_le.mpr hstop]
  rw [read?, readFrom?, Cursor.atDocumentSign_word hw, hcomment, readWord?_append hw.chars hrest]
  obtain ⟨c, cs, rfl⟩ := List.exists_cons_of_ne_nil hw.ne_nil
  simp only [Bool.or_false, Bool.false_eq_true, if_false, Cursor.moveTo_append, hgap, hends]
  rfl

/-- **A key is read up to its colon.** -/
theorem read?_key (hk : IsWord k) (hrest : endsWord rest = true) :
    read? false column ⟨k ++ ':' :: rest, m⟩ = some ⟨k, false, ⟨':' :: rest, m.along k⟩⟩ := by
  have hcolon : readWord? false (':' :: rest) = some ([], ':' :: rest) := by
    simp [readWord?, isBlankOrBreak, isBlank, isBreak, hrest]
  exact read?_word hk hcolon (Gap.read?_of_no_gap rfl) (Or.inl rfl)

/-- **A word at the end of its line is read,** and the line break behind it, if the next line is
indented too little to go on with it. -/
theorem read?_line (hw : IsWord w) (hrest : startsWith isGapChar rest = false) (hn : n < column) :
    read? false column ⟨w ++ '\n' :: (spaces n ++ rest), m⟩
      = some ⟨w, true, ⟨rest, (m.along w).overBreak.along (spaces n)⟩⟩ := by
  have hcolumn : ((m.along w).overBreak.along (spaces n)).column < column := by simpa using hn
  exact read?_word hw rfl (Gap.read?_line hrest) (Or.inr hcolumn)

end Plain

end ProgramSlice.Yaml
