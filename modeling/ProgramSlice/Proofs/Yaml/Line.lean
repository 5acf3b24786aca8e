import ProgramSlice.Proofs.Yaml.Word

/-!
# Lines of block mappings

A line of a block mapping is a key with its colon and, on the same line or on further ones, its
value.  The lexer takes three steps for a key with a word as its value.

* The key is put aside as a scalar with its place (`lexFrom?_key`).
* At the colon the key is certain, and the tokens that belong before it are put there: the sign of a
  key and, if no block mapping is open at its column, the beginning of one (`lexFrom?_colon`).
* The value takes the line break behind it along, so that the next token is met at its own column
  with a key allowed (`lexFrom?_value`).

Between lines all that matters is the column and which block collections are open; offsets and what
was read before do not.  So texts are read from their end: `ReadsAt` says what a text gives from a
column on, for every such state and enough fuel, and each line adds its tokens in front.
-/

namespace ProgramSlice.Yaml.Lexer

variable {f n : Nat} {rest k w : List Char} {m : Mark} {ts more : List Token}
  {columns : List Nat}

/-! ## Between tokens -/

namespace State

variable {s s' : State}

theorem skipGap_of_none (h : s.skipBlanks.readBreak? = none) :
    s.skipGap = { s with cursor := s.skipBlanks } := by
  rw [skipGap]
  split
  · rfl
  · next hbreak => rw [h] at hbreak; cases hbreak

theorem skipGap_of_some {b : Char} {c : Cursor} (h : s.skipBlanks.readBreak? = some (b, c)) :
    s.skipGap = skipGap { s with cursor := c, keyAllowed := s.keyAllowed || !s.inFlow } := by
  rw [skipGap]
  split
  · next hbreak => rw [h] at hbreak; cases hbreak
  · next hbreak =>
    rw [h] at hbreak
    cases hbreak
    rfl

/-- Spaces are skipped up to what is neither a blank nor begins a mark or a comment. -/
theorem skipBlanks_spaces (hs : s.cursor = ⟨spaces n ++ rest, m⟩)
    (hblank : startsWith isBlank rest = false) (hmark : startsWith (· = byteOrderMark) rest = false)
    (hcomment : startsWith (· = '#') rest = false) :
    s.skipBlanks = ⟨rest, m.along (spaces n)⟩ := by
  have hskips : startsWith s.skips rest = false := by
    cases rest with
    | nil => rfl
    | cons c rest =>
        simp only [startsWith, isBlank, Bool.or_eq_false_iff] at hblank
        simp [startsWith, skips, hblank]
  have hspaces : ∀ c ∈ spaces n, s.skips c = true := all_spaces rfl
  have hline : startsWith (· = byteOrderMark) (spaces n ++ rest) = false := by
    cases n with
    | zero => exact hmark
    | succ n => rfl
  rw [skipBlanks, hs, Cursor.skipMark]
  simp only [hline, Bool.and_false, Bool.false_eq_true, if_false]
  rw [Cursor.skipWhile_append hspaces hskips, Cursor.skipComment]
  simp only [hcomment, Bool.false_eq_true, if_false]

/-- **Spaces before a token are skipped.** -/
theorem skipGap_spaces (hs : s.cursor = ⟨spaces n ++ rest, m⟩)
    (hrest : startsWith isGapChar rest = false) :
    s.skipGap = { s with cursor := ⟨rest, m.along (spaces n)⟩ } := by
  have hblanks : s.skipBlanks = ⟨rest, m.along (spaces n)⟩ :=
    skipBlanks_spaces hs (no_blank_of_no_gap hrest)
      (startsWith_of_no_gap hrest (by simp [isGapChar]))
      (startsWith_of_no_gap hrest (by simp [isGapChar]))
  rw [skipGap_of_none, hblanks]
  rw [hblanks, Cursor.readBreak?_of_startsWith (no_break_of_no_gap hrest)]

/-- **The end of a line is skipped** with the spaces of the next one, where a key may begin. -/
theorem skipGap_line (hs : s.cursor = ⟨'\n' :: (spaces n ++ rest), m⟩)
    (hrest : startsWith isGapChar rest = false) :
    s.skipGap = { s with
      cursor := ⟨rest, m.overBreak.along (spaces n)⟩
      keyAllowed := s.keyAllowed || !s.inFlow } := by
  have hblanks : s.skipBlanks = ⟨'\n' :: (spaces n ++ rest), m⟩ :=
    skipBlanks_spaces (n := 0) hs rfl rfl rfl
  have hbreak : s.skipBlanks.readBreak?
      = some ('\n', ⟨spaces n ++ rest, m.overBreak⟩) := by
    rw [hblanks, Cursor.readBreak?_lineFeed]
  rw [skipGap_of_some hbreak, skipGap_spaces rfl hrest]

/-- A state in the block context in which a token begins here that ends nothing. -/
structure AtToken (s : State) : Prop where
  /-- No flow collection is open. -/
  block : s.outerPlaces = []
  /-- There is no gap before the token. -/
  no_gap : startsWith isGapChar s.cursor.rest = false
  /-- The possible key is near. -/
  near : ∀ k ∈ s.keyPlace, s.cursor.mark.line ≤ k.mark.line ∧
    s.cursor.mark.offset ≤ k.mark.offset + 1024
  /-- The open block collections reach here. -/
  reaches : ∀ n ∈ s.columns.head?, n ≤ s.cursor.column

theorem AtToken.advance? (h : s.AtToken) : s.advance? = some s := by
  have hgap : s.skipGap = s := skipGap_spaces (n := 0) rfl h.no_gap
  have hkey : expire? s.cursor.mark s.keyPlace = some s.keyPlace := by
    cases hk : s.keyPlace with
    | none => rfl
    | some k =>
        obtain ⟨hline, hoffset⟩ := h.near k hk
        simp [expire?, Nat.not_lt.mpr hline, Nat.not_lt.mpr hoffset]
  have houter : s.outerPlaces.mapM (expire? s.cursor.mark) = some s.outerPlaces := by
    rw [h.block]
    rfl
  have hexpire : s.expireKeys? = some s := by rw [expireKeys?, hkey, houter]
  have hclose : s.closeBlocks (s.cursor.column < ·) = s := by
    have hnone : s.columns.takeWhile (s.cursor.column < ·) = [] ∧
        s.columns.dropWhile (s.cursor.column < ·) = s.columns := by
      cases hcolumns : s.columns with
      | nil => exact ⟨rfl, rfl⟩
      | cons n columns =>
          have hn : n ≤ s.cursor.column := h.reaches n (by rw [hcolumns]; rfl)
          simp [Nat.not_lt.mpr hn]
    simp [closeBlocks, hnone]
  rw [State.advance?, hgap, hexpire, Option.map_some, hclose]

/-- A character of a word is no indicator. -/
theorem mayBeginPlain_of_isWordChar {c : Char} (hc : isWordChar c = true) :
    s.mayBeginPlain c rest = true := by
  have hne : ∀ x, isWordChar x = false → c ≠ x := fun x => ne_of_isWordChar hc
  obtain ⟨hblank, hbreak, -⟩ := isGapChar_eq_false_iff.mp (isGapChar_of_isWordChar hc)
  have hflow : isFlowIndicator c = false := by
    simp (disch := decide) [isFlowIndicator, hne]
  have hother : c ∉ "#&*!|>'\"%@\x60".toList := by
    intro hmem
    have hnone : "#&*!|>'\"%@\x60".toList.any isWordChar = false := by decide
    exact List.any_eq_false.mp hnone c hmem hc
  simp (disch := decide) only [mayBeginPlain, isBlankOrBreak, hblank, hbreak, hflow, hne,
    if_false, Bool.or_false, Bool.false_or, decide_false, Bool.false_eq_true]
  simpa using hother

/-- **Nothing but a plain scalar begins with a word.** -/
theorem readToken?_word (hw : IsWord w) (hs : s.cursor = ⟨w ++ rest, m⟩) :
    s.readToken? = s.readPlain? := by
  have hsign : s.cursor.atDocumentSign = false := by
    rw [hs]
    exact Cursor.atDocumentSign_word hw
  obtain ⟨c, cs, rfl⟩ := List.exists_cons_of_ne_nil hw.ne_nil
  have hc := hw.chars c List.mem_cons_self
  have hne : ∀ x, isWordChar x = false → c ≠ x := fun x => ne_of_isWordChar hc
  rw [readToken?, show s.cursor.rest = c :: (cs ++ rest) by rw [hs]; rfl]
  simp (disch := decide) [hsign, mayBeginPlain_of_isWordChar hc, hne]

theorem readToken?_colon (hs : s.cursor = ⟨':' :: rest, m⟩) (hrest : endsWord rest = true) :
    s.readToken? = s.readValueSign? := by
  have hsign : s.cursor.atDocumentSign = false := by simp [hs, Cursor.atDocumentSign]
  rw [readToken?, show s.cursor.rest = ':' :: rest by rw [hs]]
  simp [hsign, hrest]

end State

/-! ## Keys and values -/

def scalarOf (w : List Char) : Token := .scalar .plain (String.ofList w)

/-- A word that is not too long for a key. -/
structure IsKey (k : List Char) : Prop extends IsWord k where
  /-- The colon behind it is still near enough. -/
  length_le : k.length ≤ 1024

instance (k : List Char) : Decidable (IsKey k) :=
  decidable_of_iff (IsWord k ∧ k.length ≤ 1024)
    ⟨fun h => ⟨h.1, h.2⟩, fun h => ⟨h.toIsWord, h.length_le⟩⟩

theorem lexFrom?_of_atToken {s : State} (h : s.AtToken) (hrest : s.cursor.rest ≠ []) :
    lexFrom? (f + 1) s = s.readToken?.bind (lexFrom? f) := by
  rw [lexFrom?, h.advance?]
  simp [hrest]

/-- A gap before a token makes no difference. -/
theorem lexFrom?_congr {s s' : State} (h : s.skipGap = s'.skipGap) :
    lexFrom? f s = lexFrom? f s' := by
  cases f with
  | zero => rfl
  | succ f => rw [lexFrom?, lexFrom?, State.advance?, State.advance?, h]

/-- What is read of a key at a column and its colon, which opens a block collection if none is
open there. -/
def keyTokens (columns : List Nat) (column : Nat) (k : List Char) : List Token :=
  (if columns.head? = some column then [] else [.blockMappingStart])
    ++ [.key, scalarOf k, .value]

/-- The open block collections with one at a column. -/
def withBlock (columns : List Nat) (column : Nat) : List Nat :=
  if columns.head? = some column then columns else column :: columns

theorem exists_withBlock (columns : List Nat) (column : Nat) :
    ∃ outer, withBlock columns column = column :: outer := by
  rw [withBlock]
  split
  · next h => exact List.head?_eq_some_iff.mp h
  · exact ⟨columns, rfl⟩

/-- The end of a line is passed over with the spaces of the next one, where a key may begin. -/
theorem lexFrom?_lineBreak (hrest : startsWith isGapChar rest = false) {allowed : Bool} :
    lexFrom? f
        { cursor := ⟨'\n' :: (spaces n ++ rest), m⟩
          tokens := ts.toArray
          columns
          keyAllowed := allowed }
      = lexFrom? f
        { cursor := ⟨rest, m.overBreak.along (spaces n)⟩
          tokens := ts.toArray
          columns } := by
  refine lexFrom?_congr ?_
  rw [State.skipGap_line rfl hrest, State.skipGap_spaces (n := 0) rfl hrest]
  simp [State.inFlow]

theorem lexFrom?_key (hk : IsWord k) (hrest : endsWord rest = true)
    (hcolumns : ∀ n ∈ columns.head?, n ≤ m.column) : ∃ required,
    lexFrom? (f + 1) { cursor := ⟨k ++ ':' :: rest, m⟩, tokens := ts.toArray, columns }
      = lexFrom? f
        { cursor := ⟨':' :: rest, m.along k⟩
          tokens := (ts ++ [scalarOf k]).toArray
          columns
          keyPlace := some ⟨ts.length, m, required⟩
          keyAllowed := false } := by
  rw [lexFrom?_of_atToken ⟨rfl, hk.no_gap, by simp, hcolumns⟩ (by simp [hk.ne_nil]),
    State.readToken?_word hk rfl, State.readPlain?, State.placeKey?]
  simp only [State.dropKey?, Option.any_none, Bool.false_eq_true, if_false, if_true,
    Option.map_some, Option.bind_some, State.inFlow, List.isEmpty_nil, Bool.not_true,
    Plain.read?_key hk hrest, State.allowKey, State.push, List.size_toArray, List.push_toArray]
  exact ⟨_, rfl⟩

theorem insertIdx_length {t : Token} :
    (ts ++ more).toArray.insertIdxIfInBounds ts.length t = (ts ++ t :: more).toArray := by
  have hinsert : (ts ++ more).insertIdx ts.length t = ts ++ t :: more := by
    induction ts with
    | nil => rfl
    | cons first ts ih => simpa using ih
  rw [List.insertIdxIfInBounds_toArray, hinsert]

/-- A block collection is opened, unless one is open at the column. -/
theorem openBlock_eq {s : State} {t : Token} {column : Nat} (hblock : s.outerPlaces = [])
    (hcolumns : ∀ n ∈ s.columns.head?, n ≤ column) (hs : s.tokens = (ts ++ more).toArray) :
    s.openBlock t column ts.length
      = if s.columns.head? = some column then s
        else { s with tokens := (ts ++ t :: more).toArray, columns := column :: s.columns } := by
  have hfloor : column < s.floor ↔ s.columns.head? = some column := by
    rw [State.floor]
    cases h : s.columns with
    | nil => simp
    | cons n columns =>
        have hn : n ≤ column := hcolumns n (by rw [h]; rfl)
        simp only [List.head?_cons, Option.some.injEq]
        omega
  rw [State.openBlock, hs, insertIdx_length]
  simp only [State.inFlow, hblock, List.isEmpty_nil, Bool.not_true, Bool.false_or,
    decide_eq_true_eq, hfloor]

/-- **Behind a key stands its colon,** and with it the key is certain. -/
theorem lexFrom?_colon (hk : IsKey k) (hrest : endsWord rest = true)
    (hcolumns : ∀ n ∈ columns.head?, n ≤ m.column) {required : Bool} :
    lexFrom? (f + 1)
        { cursor := ⟨':' :: rest, m.along k⟩
          tokens := (ts ++ [scalarOf k]).toArray
          columns
          keyPlace := some ⟨ts.length, m, required⟩
          keyAllowed := false }
      = lexFrom? f
        { cursor := ⟨rest, (m.along k).along [':']⟩
          tokens := (ts ++ keyTokens columns m.column k).toArray
          columns := withBlock columns m.column
          keyAllowed := false } := by
  have hforward : (⟨':' :: rest, m.along k⟩ : Cursor).forward 1
      = ⟨rest, (m.along k).along [':']⟩ := Cursor.forward_append (w := [':'])
  rw [lexFrom?_of_atToken, State.readToken?_colon rfl hrest]
  · rw [State.readValueSign?]
    simp only [insertIdx_length]
    rw [openBlock_eq rfl hcolumns rfl, keyTokens, withBlock]
    split <;> simp [State.allowKey, State.pushSign, State.push, hforward]
  · refine ⟨rfl, rfl, ?_, ?_⟩
    · -- the key is near: it is on the line of its colon and has as many octets as characters
      rintro k' ⟨rfl⟩
      refine ⟨le_rfl, ?_⟩
      rw [Mark.offset_along hk.toIsWord]
      exact Nat.add_le_add_left hk.length_le _
    · intro n hn
      exact (hcolumns n hn).trans (Nat.le_add_right _ _)
  · simp

/-- **A key is read with its colon.** -/
theorem lexFrom?_head (hk : IsKey k) (hrest : endsWord rest = true)
    (hcolumns : ∀ n ∈ columns.head?, n ≤ m.column) :
    lexFrom? (f + 2) { cursor := ⟨k ++ ':' :: rest, m⟩, tokens := ts.toArray, columns }
      = lexFrom? f
        { cursor := ⟨rest, (m.along k).along [':']⟩
          tokens := (ts ++ keyTokens columns m.column k).toArray
          columns := withBlock columns m.column
          keyAllowed := false } := by
  obtain ⟨required, hkey⟩ := lexFrom?_key (f := f + 1) hk.toIsWord hrest hcolumns
  rw [hkey, lexFrom?_colon hk hrest hcolumns]

/-- **The value of a key on its line** is a scalar, and the next token is on the next line. -/
theorem lexFrom?_value (hw : IsWord w) (hrest : startsWith isGapChar rest = false) {column : Nat}
    (hn : n ≤ column) (hm : column ≤ m.column) :
    lexFrom? (f + 1)
        { cursor := ⟨' ' :: (w ++ '\n' :: (spaces n ++ rest)), m⟩
          tokens := ts.toArray
          columns := column :: columns
          keyAllowed := false }
      = lexFrom? f
        { cursor := ⟨rest, ((m.along [' ']).along w).overBreak.along (spaces n)⟩
          tokens := (ts ++ [scalarOf w]).toArray
          columns := column :: columns } := by
  have hspace : lexFrom? (f + 1)
        { cursor := ⟨' ' :: (w ++ '\n' :: (spaces n ++ rest)), m⟩
          tokens := ts.toArray
          columns := column :: columns
          keyAllowed := false }
      = lexFrom? (f + 1)
        { cursor := ⟨w ++ '\n' :: (spaces n ++ rest), m.along [' ']⟩
          tokens := ts.toArray
          columns := column :: columns
          keyAllowed := false } := by
    refine lexFrom?_congr ?_
    rw [State.skipGap_spaces (n := 1) rfl hw.no_gap, State.skipGap_spaces (n := 0) rfl hw.no_gap]
    rfl
  have hread : Plain.read? false (column + 1)
        ⟨w ++ '\n' :: (spaces n ++ rest), m.along [' ']⟩
      = some ⟨w, true, ⟨rest, ((m.along [' ']).along w).overBreak.along (spaces n)⟩⟩ :=
    Plain.read?_line hw hrest (Nat.lt_succ_of_le hn)
  rw [hspace, lexFrom?_of_atToken, State.readToken?_word hw rfl, State.readPlain?, State.placeKey?]
  · simp only [Bool.false_eq_true, if_false, Option.bind_some, State.inFlow, List.isEmpty_nil,
      Bool.not_true, State.floor, hread, Option.map_some, State.allowKey, State.push,
      List.push_toArray, scalarOf]
  · refine ⟨rfl, hw.no_gap, by simp, ?_⟩
    rintro n ⟨rfl⟩
    exact hm.trans (Nat.le_add_right _ _)
  · simp [hw.ne_nil]

/-! ## Lines -/

/-- From a column of a line on, with these block collections open, a text gives these tokens. -/
def ReadsAt (column : Nat) (rest : List Char) (columns : List Nat) (more : List Token) : Prop :=
  ∀ (f : Nat) (m : Mark) (ts : List Token), m.column = column → rest.length < f →
    lexFrom? f { cursor := ⟨rest, m⟩, tokens := ts.toArray, columns } = some (ts ++ more)

/-- At the end of a text all block collections end. -/
theorem ReadsAt.nil {column : Nat} :
    ReadsAt column [] columns (columns.map fun _ => Token.blockEnd) := by
  intro f m ts hm hf
  obtain ⟨f, rfl⟩ := Nat.exists_eq_add_one_of_ne_zero hf.ne_bot
  have hgap : State.skipGap { cursor := ⟨[], m⟩, tokens := ts.toArray, columns }
      = { cursor := ⟨[], m⟩, tokens := ts.toArray, columns } :=
    State.skipGap_spaces (n := 0) rfl rfl
  have hall : ∀ l : List Nat, l.takeWhile (fun _ => true) = l := by
    intro l
    induction l with
    | nil => rfl
    | cons n l ih => rw [List.takeWhile_cons_of_pos rfl, ih]
  rw [lexFrom?, State.advance?, hgap]
  -- those right of the column end first, and then the others
  simp [State.expireKeys?, State.expire?, State.closeBlocks, State.inFlow, State.leaveBlocks?,
    State.dropKey?, State.allowKey, hall, ← List.map_append, -List.map_const']

/-- **An entry on its line** is read as its key and its value. -/
theorem ReadsAt.entry {column : Nat} (hk : IsKey k) (hw : IsWord w)
    (hrest : startsWith isGapChar rest = false) (hn : n ≤ column)
    (hcolumns : ∀ c ∈ columns.head?, c ≤ column)
    (h : ReadsAt n rest (withBlock columns column) more) :
    ReadsAt column (k ++ ':' :: ' ' :: (w ++ '\n' :: (spaces n ++ rest))) columns
      (keyTokens columns column k ++ (scalarOf w :: more)) := by
  rintro f m ts rfl hf
  obtain ⟨f, rfl⟩ : ∃ f', f = f' + 3 := ⟨f - 3, by simp at hf; omega⟩
  obtain ⟨outer, houter⟩ := exists_withBlock columns m.column
  rw [lexFrom?_head hk rfl hcolumns, houter,
    lexFrom?_value hw hrest hn ((Nat.le_add_right _ _).trans (Nat.le_add_right _ _)), ← houter,
    h _ _ _ (by simp) (by simp at hf; omega)]
  simp

/-- **The head of a section** is read as its key; its value begins on the next line. -/
theorem ReadsAt.section {column : Nat} (hk : IsKey k) (hrest : startsWith isGapChar rest = false)
    (hcolumns : ∀ c ∈ columns.head?, c ≤ column)
    (h : ReadsAt n rest (withBlock columns column) more) :
    ReadsAt column (k ++ ':' :: '\n' :: (spaces n ++ rest)) columns
      (keyTokens columns column k ++ more) := by
  rintro f m ts rfl hf
  obtain ⟨f, rfl⟩ : ∃ f', f = f' + 2 := ⟨f - 2, by simp at hf; omega⟩
  rw [lexFrom?_head hk rfl hcolumns, lexFrom?_lineBreak hrest,
    h _ _ _ (by simp) (by simp at hf; omega)]
  simp

end ProgramSlice.Yaml.Lexer
