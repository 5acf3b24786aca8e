import ProgramSlice.Proofs.Json.Literal

/-!
# Reading back the text of a value

The text that is written for a value is read back as the value, in every layout that sets its parts
apart by blanks (`Layout.Blank`), if the value has no part without a text of its own and its
containers are nested no deeper than the reader allows (`Readable`).

The writer and the reader meet in `Denotes`: a text denotes a value if the reader takes it for the
value wherever it stands.  The texts of the parts of a container denote the parts, so the text of
the container denotes the container (`Denotes.array`, `Denotes.object`), and an induction on
`Readable` gives all values (`Readable.denotes`).  The fuel of the reader is never short: each
character of a text pays for two calls.
-/

namespace ProgramSlice.Json

variable {room level fuel : Nat} {l : Layout} {lead blank text rest : List Char} {j : Json}

/-! ## Blanks -/

/-- A text of blanks only. -/
def IsBlank (text : List Char) : Prop := ∀ c ∈ text, isSpace c = true

theorem IsBlank.nil : IsBlank [] := by simp [IsBlank]

/-- A layout sets the parts of a text apart by blanks only. -/
structure Layout.Blank (l : Layout) : Prop where
  afterColon : IsBlank l.afterColon
  lineBreak : ∀ level, IsBlank (l.lineBreak level)

theorem Layout.blank_indented : Layout.indented.Blank where
  afterColon := by simp [indented, IsBlank, isSpace]
  lineBreak := by
    intro level c hc
    rcases List.mem_cons.mp hc with rfl | hc
    · rfl
    · obtain ⟨-, rfl⟩ := List.mem_replicate.mp hc
      rfl

theorem skipSpace_append (h : IsBlank blank) : skipSpace (blank ++ rest) = skipSpace rest :=
  List.dropWhile_append_of_pos h

theorem skipSpace_cons {c : Char} (h : isSpace c = false) : skipSpace (c :: rest) = c :: rest := by
  simp [skipSpace, h]

/-- Blanks end a number, and so does what follows them if it ends one. -/
theorem EndsNumber.append (hblank : IsBlank blank) (h : EndsNumber rest) :
    EndsNumber (blank ++ rest) := by
  cases blank with
  | nil => exact h
  | cons c blank =>
      have hc : isSpace c = true := hblank c List.mem_cons_self
      have hends : ∀ d : Char, isSpace d = true →
          d.isDigit = false ∧ d ≠ '.' ∧ d ≠ 'e' ∧ d ≠ 'E' := by
        intro d hd
        simp only [isSpace, Bool.or_eq_true, decide_eq_true_eq] at hd
        rcases hd with ((rfl | rfl) | rfl) | rfl <;> decide
      exact .cons (hends c hc)

/-- Blanks before a value are skipped. -/
theorem readValue_append (h : IsBlank blank) (cs : List Char) :
    readValue fuel room (blank ++ cs) = readValue fuel room cs := by
  cases fuel with
  | zero => rw [readValue, readValue]
  | succ fuel => rw [readValue, readValue, skipSpace_append h]

/-! ## Texts of values -/

/-- A text denotes a value within so many containers: it begins neither with a blank nor with a
closing bracket, and it is read as the value, whatever ends it. -/
structure Denotes (room : Nat) (text : List Char) (j : Json) : Prop where
  begins : ∃ c cs, text = c :: cs ∧ isSpace c = false ∧ c ≠ ']'
  reads : ∀ {fuel rest}, 2 * text.length ≤ fuel → EndsNumber rest →
    readValue fuel room (text ++ rest) = some (j, rest)

namespace Denotes

/-- A text may stand behind blanks. -/
theorem reads_behind (h : Denotes room text j) (hlead : IsBlank lead)
    (hfuel : 2 * text.length ≤ fuel) (hrest : EndsNumber rest) :
    readValue fuel room (lead ++ (text ++ rest)) = some (j, rest) := by
  rw [readValue_append hlead, h.reads hfuel hrest]

/-- It is enough to read a text with a unit of fuel to spare. -/
theorem of_succ (hbegins : ∃ c cs, text = c :: cs ∧ isSpace c = false ∧ c ≠ ']')
    (hreads : ∀ {fuel rest}, 2 * text.length ≤ fuel + 1 → EndsNumber rest →
      readValue (fuel + 1) room (text ++ rest) = some (j, rest)) : Denotes room text j where
  begins := hbegins
  reads := by
    intro fuel rest hfuel hrest
    obtain ⟨c, cs, rfl, -⟩ := hbegins
    cases fuel with
    | zero => simp at hfuel
    | succ fuel => exact hreads hfuel hrest

/-! ### Values without parts -/

theorem null : Denotes room (render l level .null) .null := by
  refine of_succ ⟨'n', _, rfl, rfl, by decide⟩ ?_
  intro fuel rest _ _
  rfl

theorem bool (b : Bool) : Denotes room (render l level (.bool b)) (.bool b) := by
  cases b with
  | true =>
      refine of_succ ⟨'t', _, rfl, rfl, by decide⟩ ?_
      intro fuel rest _ _
      rfl
  | false =>
      refine of_succ ⟨'f', _, rfl, rfl, by decide⟩ ?_
      intro fuel rest _ _
      rfl

theorem string (s : String) : Denotes room (render l level (.string s)) (.string s) := by
  refine of_succ ⟨'"', _, rfl, rfl, by decide⟩ ?_
  intro fuel rest _ _
  rw [render, renderString_append, readValue, skipSpace_cons rfl]
  show (readString (s.toList.flatMap escapeChar ++ '"' :: rest)).map _ = _
  rw [readString_render]
  rfl

theorem integer (n : Int) : Denotes room (render l level (.integer n)) (.integer n) := by
  obtain ⟨c, cs, htext, hc⟩ := exists_renderInteger_cons n
  -- a number begins with none of the blanks and none of the characters that show another value
  have hmarks : c ∉ [' ', '\t', '\n', '\r', 'n', 't', 'f', '"', '[', '{', ']'] := by
    intro hmem
    simp only [List.mem_cons, List.not_mem_nil, or_false] at hmem
    rcases hmem with rfl | rfl | rfl | rfl | rfl | rfl | rfl | rfl | rfl | rfl | rfl <;>
      exact absurd hc (by decide)
  have hspace : isSpace c = false := by simp_all [isSpace]
  have hrender : render l level (.integer n) = c :: cs := htext
  refine of_succ ⟨c, cs, hrender, hspace, by simp_all⟩ ?_
  intro fuel rest _ hrest
  have hread := readNumber_renderInteger n hrest
  rw [htext] at hread
  rw [hrender, readValue, List.cons_append, skipSpace_cons hspace, ← List.cons_append, ← hread]
  split <;> simp_all

/-! ### Arrays -/

/-- A bracket, a brace or a comma behind blanks ends a number. -/
theorem endsNumber_mark {c : Char} (hblank : IsBlank blank)
    (h : c.isDigit = false ∧ c ≠ '.' ∧ c ≠ 'e' ∧ c ≠ 'E') : EndsNumber (blank ++ c :: rest) :=
  .append hblank (.cons h)

/-- The items of an array are read from their texts, up to the closing bracket behind blanks. -/
theorem readItems_render (hl : l.Blank) {items : List Json} (hlead : IsBlank lead)
    (hblank : IsBlank blank) (hj : Denotes room (render l level j) j)
    (hitems : ∀ i ∈ items, Denotes room (render l level i) i)
    (hfuel : 2 * (render l level j ++ renderItems l level items).length + 2 ≤ fuel) :
    readItems fuel room
        (lead ++ (render l level j ++ (renderItems l level items ++ (blank ++ ']' :: rest))))
      = some (j :: items, rest) := by
  induction items generalizing j fuel lead with
  | nil =>
      obtain ⟨fuel, rfl⟩ := Nat.exists_eq_add_of_le' (Nat.le_of_add_left_le hfuel)
      simp only [renderItems, List.length_append, List.length_nil] at hfuel
      rw [readItems, renderItems, List.nil_append,
        hj.reads_behind hlead (by omega) (endsNumber_mark hblank (by decide))]
      simp only [skipSpace_append hblank, skipSpace_cons (show isSpace ']' = false from rfl)]
  | cons i items ih =>
      obtain ⟨fuel, rfl⟩ := Nat.exists_eq_add_of_le' (Nat.le_of_add_left_le hfuel)
      simp only [renderItems, List.length_append, List.length_cons] at hfuel
      have hmore : ∀ i' ∈ items, Denotes room (render l level i') i' :=
        fun i' hi' => hitems i' (List.mem_cons_of_mem _ hi')
      rw [readItems, renderItems]
      simp only [List.cons_append, List.append_assoc]
      rw [hj.reads_behind hlead (by omega) (.cons (by decide))]
      simp only [skipSpace_cons (show isSpace ',' = false from rfl)]
      rw [ih (hl.lineBreak level) (hitems i List.mem_cons_self) hmore
        (by simp only [List.length_append]; omega)]
      rfl

/-- An array that does not close at once is read item by item. -/
theorem readValue_bracket {c : Char} {cs last : List Char} {items : List Json}
    (h : skipSpace rest = c :: cs) (hc : c ≠ ']')
    (hread : readItems fuel room (c :: cs) = some (items, last)) :
    readValue (fuel + 1) (room + 1) ('[' :: rest) = some (.array items, last) := by
  rw [readValue, skipSpace_cons rfl]
  simp only [h]
  split
  · next heq => exact absurd (List.cons.inj heq).1 hc
  · rw [Nat.add_sub_cancel, hread]
    rfl

/-- **The text of an array denotes the array** if the texts of its items denote them. -/
theorem array (hl : l.Blank) {items : List Json}
    (hitems : ∀ j ∈ items, Denotes room (render l (level + 1) j) j) :
    Denotes (room + 1) (render l level (.array items)) (.array items) := by
  cases items with
  | nil =>
      refine of_succ ⟨'[', _, rfl, rfl, by decide⟩ ?_
      intro fuel rest _ _
      rfl
  | cons j items =>
      refine of_succ ⟨'[', _, rfl, rfl, by decide⟩ ?_
      intro fuel rest hfuel _
      have hj := hitems j List.mem_cons_self
      have hmore : ∀ i ∈ items, Denotes room (render l (level + 1) i) i :=
        fun i hi => hitems i (List.mem_cons_of_mem _ hi)
      obtain ⟨c, cs, htext, hspace, hc⟩ := hj.begins
      have hread : readItems fuel room (render l (level + 1) j ++
          (renderItems l (level + 1) items ++ (l.lineBreak level ++ ']' :: rest)))
            = some (j :: items, rest) :=
        readItems_render hl IsBlank.nil (hl.lineBreak level) hj hmore
          (by simp [render] at hfuel ⊢; omega)
      rw [htext, List.cons_append] at hread
      rw [render]
      simp only [List.cons_append, List.append_assoc, List.nil_append, htext]
      refine readValue_bracket ?_ hc hread
      rw [skipSpace_append (hl.lineBreak _), skipSpace_cons hspace]

/-! ### Objects -/

/-- A field as it is read, with a name that has a value. -/
abbrev readField (field : String × Json) : Option String × Json := (some field.1, field.2)

theorem ofFields_map (fields : List (String × Json)) :
    ofFields (fields.map readField) = .object fields := by
  have hread : ∀ read : Option String × Json → Option (String × Json),
      (∀ field, read (readField field) = some field) →
        (fields.map readField).mapM read = some fields := by
    intro read hfield
    induction fields with
    | nil => rfl
    | cons field fields ih =>
        rw [List.map_cons, List.mapM_cons, hfield, ih]
        rfl
  rw [ofFields, hread _ fun _ => rfl]

section Field

variable {fields : List (Option String × Json)} {tail last : List Char}

/-- A field before a closing brace is the last one. -/
theorem readFields_last (name : String) (hlead : IsBlank lead) (hblank : IsBlank blank)
    (hj : Denotes room text j) (hfuel : 2 * text.length ≤ fuel) (hrest : EndsNumber rest)
    (htail : skipSpace rest = '}' :: last) :
    readFields (fuel + 1) room (lead ++ (renderString name ++ ':' :: (blank ++ (text ++ rest))))
      = some ([(some name, j)], last) := by
  have hread := hj.reads_behind hblank hfuel hrest
  rw [readFields, skipSpace_append hlead, renderString_append, skipSpace_cons rfl]
  simp only [readString_render, skipSpace_cons (show isSpace ':' = false from rfl), hread, htail]

/-- A field before a comma is the first of those that are read behind the comma. -/
theorem readFields_more (name : String) (hlead : IsBlank lead) (hblank : IsBlank blank)
    (hj : Denotes room text j) (hfuel : 2 * text.length ≤ fuel) (hrest : EndsNumber rest)
    (htail : skipSpace rest = ',' :: tail)
    (hmore : readFields fuel room tail = some (fields, last)) :
    readFields (fuel + 1) room (lead ++ (renderString name ++ ':' :: (blank ++ (text ++ rest))))
      = some ((some name, j) :: fields, last) := by
  have hread := hj.reads_behind hblank hfuel hrest
  rw [readFields, skipSpace_append hlead, renderString_append, skipSpace_cons rfl]
  simp only [readString_render, skipSpace_cons (show isSpace ':' = false from rfl), hread, htail,
    hmore, Option.map_some]

end Field

/-- The fields of an object are read from their texts, up to the closing brace behind blanks. -/
theorem readFields_render (hl : l.Blank) {fields : List (String × Json)} {name : String}
    (hlead : IsBlank lead) (hblank : IsBlank blank) (hj : Denotes room (render l level j) j)
    (hfields : ∀ field ∈ fields, Denotes room (render l level field.2) field.2)
    (hfuel : 2 * (render l level j ++ renderFields l level fields).length + 2 ≤ fuel) :
    readFields fuel room
        (lead ++ (renderString name ++ ':' :: (l.afterColon ++
          (render l level j ++ (renderFields l level fields ++ (blank ++ '}' :: rest))))))
      = some (((name, j) :: fields).map readField, rest) := by
  induction fields generalizing name j fuel lead with
  | nil =>
      obtain ⟨fuel, rfl⟩ := Nat.exists_eq_add_of_le' (Nat.le_of_add_left_le hfuel)
      simp only [renderFields, List.length_append, List.length_nil] at hfuel
      have htail : skipSpace (blank ++ '}' :: rest) = '}' :: rest := by
        rw [skipSpace_append hblank, skipSpace_cons rfl]
      exact readFields_last name hlead hl.afterColon hj (by omega)
        (endsNumber_mark hblank (by decide)) htail
  | cons field fields ih =>
      obtain ⟨fuel, rfl⟩ := Nat.exists_eq_add_of_le' (Nat.le_of_add_left_le hfuel)
      simp only [renderFields, List.length_append, List.length_cons] at hfuel
      have hmore : ∀ field' ∈ fields, Denotes room (render l level field'.2) field'.2 :=
        fun field' h => hfields field' (List.mem_cons_of_mem _ h)
      rw [renderFields]
      simp only [List.cons_append, List.append_assoc]
      exact readFields_more name hlead hl.afterColon hj (by omega) (.cons (by decide))
        (skipSpace_cons rfl) (ih (hl.lineBreak level) (hfields field List.mem_cons_self) hmore
          (by simp only [List.length_append]; omega))

/-- An object that does not close at once is read field by field. -/
theorem readValue_brace {cs last : List Char} {fields : List (String × Json)}
    (h : skipSpace rest = '"' :: cs)
    (hread : readFields fuel room ('"' :: cs) = some (fields.map readField, last)) :
    readValue (fuel + 1) (room + 1) ('{' :: rest) = some (.object fields, last) := by
  rw [readValue, skipSpace_cons rfl]
  simp only [h]
  show (readFields fuel room ('"' :: cs)).map _ = _
  rw [hread, Option.map_some, ofFields_map]
  rfl

/-- **The text of an object denotes the object** if the texts of its values denote them. -/
theorem object (hl : l.Blank) {fields : List (String × Json)}
    (hfields : ∀ field ∈ fields, Denotes room (render l (level + 1) field.2) field.2) :
    Denotes (room + 1) (render l level (.object fields)) (.object fields) := by
  cases fields with
  | nil =>
      refine of_succ ⟨'{', _, rfl, rfl, by decide⟩ ?_
      intro fuel rest _ _
      rfl
  | cons field fields =>
      obtain ⟨name, j⟩ := field
      refine of_succ ⟨'{', _, rfl, rfl, by decide⟩ ?_
      intro fuel rest hfuel _
      have hmore : ∀ field' ∈ fields, Denotes room (render l (level + 1) field'.2) field'.2 :=
        fun field' h => hfields field' (List.mem_cons_of_mem _ h)
      have hread : readFields fuel room (renderString name ++ ':' :: (l.afterColon ++
          (render l (level + 1) j ++
            (renderFields l (level + 1) fields ++ (l.lineBreak level ++ '}' :: rest)))))
              = some (((name, j) :: fields).map readField, rest) :=
        readFields_render hl IsBlank.nil (hl.lineBreak level) (hfields _ List.mem_cons_self) hmore
          (by simp [render] at hfuel ⊢; omega)
      rw [renderString_append] at hread
      rw [render]
      simp only [List.cons_append, List.append_assoc, List.nil_append, renderString_append]
      refine readValue_brace ?_ hread
      rw [skipSpace_append (hl.lineBreak _), skipSpace_cons rfl]

end Denotes

/-! ## Values that are read back -/

/-- A value has a text of its own in every part, and its containers are nested within a depth.  An
array or object has room for one container less inside it. -/
inductive Readable : Nat → Json → Prop
  | null {room : Nat} : Readable room .null
  | bool {room : Nat} (b : Bool) : Readable room (.bool b)
  | integer {room : Nat} (n : Int) : Readable room (.integer n)
  | string {room : Nat} (s : String) : Readable room (.string s)
  | array {room : Nat} {items : List Json} (h : ∀ j ∈ items, Readable room j) :
      Readable (room + 1) (.array items)
  | object {room : Nat} {fields : List (String × Json)}
      (h : ∀ field ∈ fields, Readable room field.2) : Readable (room + 1) (.object fields)

/-- The text of a value denotes the value. -/
theorem Readable.denotes (hl : l.Blank) (h : Readable room j) :
    ∀ level, Denotes room (render l level j) j := by
  induction h with
  | null => exact fun _ => .null
  | bool b => exact fun _ => .bool b
  | integer n => exact fun _ => .integer n
  | string s => exact fun _ => .string s
  | array _ ih => exact fun level => .array hl fun j hj => ih j hj (level + 1)
  | object _ ih => exact fun level => .object hl fun field hfield => ih field hfield (level + 1)

/-- **A value is read back from its text** in every layout of blanks. -/
theorem parseWithin?_render (hl : l.Blank) (h : Readable room j) :
    parseWithin? room (String.ofList (render l 0 j)) = some j := by
  have hread : readValue (2 * (render l 0 j).length + 2) room (render l 0 j ++ []) = some (j, []) :=
    (h.denotes hl 0).reads (by omega) .nil
  rw [List.append_nil] at hread
  rw [parseWithin?, String.toList_ofList]
  simp [hread, skipSpace]

/-- **A value is read back from its text over several lines.** -/
theorem parse?_indented (h : Readable maxDepth j) : parse? j.indented = some j :=
  parseWithin?_render Layout.blank_indented h

end ProgramSlice.Json
