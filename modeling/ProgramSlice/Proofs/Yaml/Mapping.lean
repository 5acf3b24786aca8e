import ProgramSlice.Proofs.Yaml.Line
import ProgramSlice.Yaml.Node.Grammar

/-!
# Mappings of words

A block mapping is written line by line: an entry whose value is a word takes one line, and the
entries of a section stand below its head, further to the right.  Such a text passes through two
stages.

* Its lines become tokens.  `ReadsLines` says which, from the beginning of a line on; entries are
  put in front of one another, and the first entry of a mapping opens it.
* The tokens become a node.  `ReadsNode` says which, wherever in a block the tokens stand; a mapping
  is read if its values are (`ReadsNode.mapping`).

`Item` is what the stages have in common: a key together with the tokens and the node of its value.
The result is `Node.parse?_document`.
-/

namespace ProgramSlice.Yaml

/-! ## Entries -/

/-- A key and a value. -/
structure Entry where
  key : List Char
  value : List Char

/-- Both parts of an entry are words, and its key is not too long. -/
structure Entry.IsPlain (e : Entry) : Prop where
  key : Lexer.IsKey e.key
  value : IsWord e.value

/-- The line of an entry that is indented by so many spaces. -/
def Entry.line (indent : Nat) (e : Entry) : List Char :=
  spaces indent ++ (e.key ++ ':' :: ' ' :: (e.value ++ ['\n']))

def sectionLine (indent : Nat) (key : List Char) : List Char :=
  spaces indent ++ (key ++ [':', '\n'])

/-- A text of entries and, below them, a section with entries of its own. -/
def documentText (top : List Entry) (name : List Char) (es : List Entry) : List Char :=
  top.flatMap (·.line 0) ++ (sectionLine 0 name ++ es.flatMap (·.line 2))

/-- A key with the tokens and the node of its value. -/
structure Item where
  key : List Char
  tokens : List Token
  node : Node

/-- The node of a word. -/
def wordNode (w : List Char) : Node := .scalar none { text := String.ofList w }

/-- The tokens of a key and its value. -/
def Item.allTokens (i : Item) : List Token := .key :: Lexer.scalarOf i.key :: .value :: i.tokens

def mappingTokens (items : List Item) : List Token :=
  .blockMappingStart :: (items.flatMap Item.allTokens ++ [.blockEnd])

def mappingNode (items : List Item) : Node :=
  .mapping none (items.map fun i => (wordNode i.key, i.node))

/-- An entry as an item of a mapping. -/
def Entry.item (e : Entry) : Item := ⟨e.key, [Lexer.scalarOf e.value], wordNode e.value⟩

/-- A section as an item of a mapping. -/
def sectionItem (name : List Char) (items : List Item) : Item :=
  ⟨name, mappingTokens items, mappingNode items⟩

/-- What a text of entries and a section consists of. -/
def documentItems (top : List Entry) (name : List Char) (es : List Entry) : List Item :=
  top.map Entry.item ++ [sectionItem name (es.map Entry.item)]

/-! ## From lines to tokens -/

namespace Lexer

variable {column inner : Nat} {columns outer : List Nat} {tail name : List Char}
  {more : List Token} {top es : List Entry}

/-- From the beginning of a line on, with these block collections open, a text gives these tokens.
Its first line is indented no further than to a column. -/
def ReadsLines (column : Nat) (tail : List Char) (columns : List Nat) (more : List Token) : Prop :=
  ∃ n text, n ≤ column ∧ tail = spaces n ++ text ∧ startsWith isGapChar text = false ∧
    ReadsAt n text columns more

namespace ReadsLines

theorem nil : ReadsLines column [] columns (columns.map fun _ => .blockEnd) :=
  ⟨0, [], Nat.zero_le _, rfl, rfl, .nil⟩

theorem entry {e : Entry} (he : e.IsPlain) (hcolumns : ∀ c ∈ columns.head?, c ≤ column)
    (h : ReadsLines column tail (withBlock columns column) more) :
    ReadsLines column (e.line column ++ tail) columns
      (keyTokens columns column e.key ++ scalarOf e.value :: more) := by
  obtain ⟨n, text, hn, rfl, htext, hreads⟩ := h
  refine ⟨column, _, le_rfl, ?_, he.key.no_gap, hreads.entry he.key he.value htext hn hcolumns⟩
  simp [Entry.line]

theorem head (hname : IsKey name) (hcolumns : ∀ c ∈ columns.head?, c ≤ column)
    (h : ReadsLines inner tail (withBlock columns column) more) :
    ReadsLines column (sectionLine column name ++ tail) columns
      (keyTokens columns column name ++ more) := by
  obtain ⟨n, text, hn, rfl, htext, hreads⟩ := h
  refine ⟨column, _, le_rfl, ?_, hname.no_gap, hreads.section hname htext hcolumns⟩
  simp [sectionLine]

/-- Entries of a mapping that is open. -/
theorem entries (hes : ∀ e ∈ es, e.IsPlain) (h : ReadsLines column tail (column :: outer) more) :
    ReadsLines column (es.flatMap (·.line column) ++ tail) (column :: outer)
      ((es.map Entry.item).flatMap Item.allTokens ++ more) := by
  induction es with
  | nil => exact h
  | cons e es ih =>
      have hopen : withBlock (column :: outer) column = column :: outer := by simp [withBlock]
      have hrest := ih fun e' he' => hes e' (List.mem_cons_of_mem e he')
      rw [← hopen] at hrest
      have hline := hrest.entry (hes e List.mem_cons_self) (by simp)
      simpa [keyTokens, Entry.item, Item.allTokens] using hline

/-- **Entries of a mapping that they open:** the first one does. -/
theorem opened (hes : ∀ e ∈ es, e.IsPlain) (hne : es ≠ [])
    (hcolumns : ∀ c ∈ columns.head?, c < column)
    (h : ReadsLines column tail (column :: columns) more) :
    ReadsLines column (es.flatMap (·.line column) ++ tail) columns
      (.blockMappingStart :: ((es.map Entry.item).flatMap Item.allTokens ++ more)) := by
  obtain ⟨e, es, rfl⟩ := List.exists_cons_of_ne_nil hne
  have hother : columns.head? ≠ some column := fun heq => Nat.lt_irrefl _ (hcolumns column heq)
  have hopen : withBlock columns column = column :: columns := if_neg hother
  have hrest := h.entries fun e' he' => hes e' (List.mem_cons_of_mem e he')
  rw [← hopen] at hrest
  have hline := hrest.entry (hes e List.mem_cons_self) fun c hc => (hcolumns c hc).le
  simpa [keyTokens, hother, Entry.item, Item.allTokens] using hline

/-- The entries of a section, up to the end of the text. -/
theorem mapping (hes : ∀ e ∈ es, e.IsPlain) (hne : es ≠ [])
    (hcolumns : ∀ c ∈ columns.head?, c < column) :
    ReadsLines column (es.flatMap (·.line column)) columns
      (mappingTokens (es.map Entry.item) ++ columns.map fun _ => .blockEnd) := by
  have hend : ReadsLines column [] (column :: columns)
      (.blockEnd :: columns.map fun _ => .blockEnd) := nil
  simpa [mappingTokens, -List.map_const'] using hend.opened hes hne hcolumns

/-- **The lines of a document** are those of a mapping within a mapping. -/
theorem document (htop : ∀ e ∈ top, e.IsPlain) (hname : IsKey name) (hes : ∀ e ∈ es, e.IsPlain)
    (hne : es ≠ []) :
    ReadsLines 0 (documentText top name es) [] (mappingTokens (documentItems top name es)) := by
  have hinner : ReadsLines 2 (es.flatMap (·.line 2)) [0]
      (mappingTokens (es.map Entry.item) ++ [.blockEnd]) := mapping hes hne (by simp)
  by_cases hnone : top = []
  · -- the head of the section opens the outer mapping
    subst hnone
    have hhead : ReadsLines 0 (sectionLine 0 name ++ es.flatMap (·.line 2)) []
        (keyTokens [] 0 name ++ (mappingTokens (es.map Entry.item) ++ [.blockEnd])) :=
      head hname (by simp) hinner
    simpa [documentText, documentItems, sectionItem, keyTokens, mappingTokens, Item.allTokens]
      using hhead
  · have hhead : ReadsLines 0 (sectionLine 0 name ++ es.flatMap (·.line 2)) [0]
        (keyTokens [0] 0 name ++ (mappingTokens (es.map Entry.item) ++ [.blockEnd])) :=
      head hname (by simp) hinner
    have hlines := hhead.opened htop hnone (by simp)
    simpa [documentText, documentItems, sectionItem, keyTokens, mappingTokens, Item.allTokens]
      using hlines

end ReadsLines

end Lexer

/-! ## From tokens to nodes -/

namespace Grammar

variable {handles : Handles} {fuel : Nat} {place : Place} {ts rest : List Token}
  {anchors : Anchors} {node : Node} {items : List Item}

/-- These tokens are read as this node, outside flow collections. -/
structure ReadsNode (ts : List Token) (node : Node) : Prop where
  /-- The node is not left out. -/
  present : ∃ t more, ts = t :: more ∧ t ∉ [Token.key, .value, .blockEnd]
  /-- The tokens and no others are read. -/
  read : ∀ (handles : Handles) (fuel : Nat) (place : Place) (rest : List Token) (anchors : Anchors),
    ts.length ≤ fuel → place ≠ .flow →
      readNode? handles fuel place ⟨ts ++ rest, anchors⟩ = some (node, ⟨rest, anchors⟩)

theorem ReadsNode.word (w : List Char) : ReadsNode [Lexer.scalarOf w] (wordNode w) where
  present := ⟨_, _, rfl, by simp [Lexer.scalarOf]⟩
  read := by
    intro handles fuel place rest anchors hfuel hplace
    obtain ⟨fuel, rfl⟩ := Nat.exists_eq_add_one_of_ne_zero (Nat.ne_of_gt hfuel)
    simp [Lexer.scalarOf, readNode?, readProperties?, Progress.goOn, scalarOf, wordNode]

/-- A node that is there is read where it might be left out. -/
theorem ReadsNode.orMissing (h : ReadsNode ts node) (hplace : place ≠ .flow)
    (hfuel : ts.length ≤ fuel) :
    Grammar.orMissing [.key, .value, .blockEnd] (readNode? handles fuel place) ⟨ts ++ rest, anchors⟩
      = some (node, ⟨rest, anchors⟩) := by
  obtain ⟨t, more, rfl, ht⟩ := h.present
  rw [Grammar.orMissing]
  simp only [List.cons_append, if_neg ht]
  exact h.read handles fuel place rest anchors hfuel hplace

/-- A key and its value are read behind the sign of the key. -/
theorem readBlockPair?_item {i : Item} (hi : ReadsNode i.tokens i.node)
    (hfuel : i.tokens.length < fuel) :
    readBlockPair? (readNode? handles fuel .blockMapping)
        ⟨Lexer.scalarOf i.key :: .value :: (i.tokens ++ rest), anchors⟩
      = some ((wordNode i.key, i.node), ⟨rest, anchors⟩) := by
  have hkey : Grammar.orMissing [.key, .value, .blockEnd] (readNode? handles fuel .blockMapping)
        ⟨Lexer.scalarOf i.key :: .value :: (i.tokens ++ rest), anchors⟩
      = some (wordNode i.key, ⟨.value :: (i.tokens ++ rest), anchors⟩) :=
    (ReadsNode.word i.key).orMissing (by decide) (Nat.one_le_of_lt hfuel)
  have hvalue : Grammar.orMissing [.key, .value, .blockEnd] (readNode? handles fuel .blockMapping)
        ⟨i.tokens ++ rest, anchors⟩ = some (i.node, ⟨rest, anchors⟩) :=
    hi.orMissing (by decide) hfuel.le
  rw [readBlockPair?, hkey]
  simp only [Option.bind_some, readValue?, Progress.goOn, hvalue, Option.map_some]

/-- The items of a block mapping are read up to its end. -/
theorem readBlockEntries?_items (hitems : ∀ i ∈ items, ReadsNode i.tokens i.node)
    (hfuel : (items.flatMap Item.allTokens).length < fuel) :
    readBlockEntries? handles fuel
        ⟨items.flatMap Item.allTokens ++ .blockEnd :: rest, anchors⟩
      = some (items.map fun i => (wordNode i.key, i.node), ⟨rest, anchors⟩) := by
  induction items generalizing fuel with
  | nil =>
      obtain ⟨fuel, rfl⟩ := Nat.exists_eq_add_one_of_ne_zero (Nat.ne_of_gt hfuel)
      simp [readBlockEntries?, Progress.goOn]
  | cons i items ih =>
      obtain ⟨fuel, rfl⟩ := Nat.exists_eq_add_one_of_ne_zero (Nat.ne_zero_of_lt hfuel)
      -- one step less of fuel is enough for the value and for the other entries
      simp only [List.flatMap_cons, Item.allTokens, List.length_append, List.length_cons] at hfuel
      have hi : ∀ rest, readBlockPair? (readNode? handles fuel .blockMapping)
            ⟨Lexer.scalarOf i.key :: .value :: (i.tokens ++ rest), anchors⟩
          = some ((wordNode i.key, i.node), ⟨rest, anchors⟩) :=
        fun rest => readBlockPair?_item (hitems i List.mem_cons_self) (by omega)
      have hrest : readBlockEntries? handles fuel
            ⟨items.flatMap Item.allTokens ++ .blockEnd :: rest, anchors⟩
          = some (items.map fun i => (wordNode i.key, i.node), ⟨rest, anchors⟩) :=
        ih (fun j hj => hitems j (List.mem_cons_of_mem i hj)) (by omega)
      rw [List.flatMap_cons, Item.allTokens, readBlockEntries?]
      simp [Progress.goOn, hi, hrest]

/-- **The tokens of a block mapping are read as a mapping,** if its values are read. -/
theorem ReadsNode.mapping (hitems : ∀ i ∈ items, ReadsNode i.tokens i.node) :
    ReadsNode (mappingTokens items) (mappingNode items) where
  present := ⟨_, _, rfl, by simp⟩
  read := by
    intro handles fuel place rest anchors hfuel hplace
    obtain ⟨fuel, rfl⟩ := Nat.exists_eq_add_one_of_ne_zero (Nat.ne_of_gt (Nat.zero_lt_of_lt hfuel))
    have hentries : readBlockEntries? handles fuel
          ⟨items.flatMap Item.allTokens ++ .blockEnd :: rest, anchors⟩
        = some (items.map fun i => (wordNode i.key, i.node), ⟨rest, anchors⟩) := by
      refine readBlockEntries?_items hitems ?_
      simp only [mappingTokens, List.length_cons, List.length_append] at hfuel
      omega
    have hblock : place = .block ∨ place = .blockMapping := by
      cases place <;> simp_all
    rcases hblock with rfl | rfl <;>
      simp [mappingTokens, mappingNode, readNode?, readProperties?, Progress.goOn, hentries]

theorem readsNode_document (top es : List Entry) (name : List Char) :
    ReadsNode (mappingTokens (documentItems top name es))
      (mappingNode (documentItems top name es)) := by
  have hentries : ∀ l : List Entry, ∀ i ∈ l.map Entry.item, ReadsNode i.tokens i.node := by
    intro l i hi
    obtain ⟨e, -, rfl⟩ := List.mem_map.mp hi
    exact .word e.value
  refine .mapping fun i hi => ?_
  rcases List.mem_append.mp hi with hi | hi
  · exact hentries top i hi
  · obtain rfl := List.mem_singleton.mp hi
    exact .mapping (hentries es)

end Grammar

/-! ## From texts to nodes -/

/-- What is read from the beginning of the first line is what a text gives. -/
theorem Token.lex?_of_readsLines {text : List Char} {ts : List Token}
    (hallowed : ∀ c ∈ text, isAllowed c = true) (h : Lexer.ReadsLines 0 text [] ts) :
    Token.lex? text = some ts := by
  obtain ⟨n, tail, hn, htext, -, hreads⟩ := h
  obtain rfl := Nat.le_zero.mp hn
  obtain rfl : text = tail := htext
  rw [Token.lex?, if_pos (List.all_eq_true.mpr hallowed)]
  exact hreads _ {} [] rfl (Nat.lt_succ_self _)

/-- A mapping alone is the node of a text. -/
theorem Node.ofTokens?_mapping {items : List Item} {node : Node}
    (h : Grammar.ReadsNode (mappingTokens items) node) :
    Node.ofTokens? (mappingTokens items) = some (some node) := by
  have hread := h.read .default (3 * (mappingTokens items).length + 3) .block [] []
    (by omega) (by decide)
  rw [List.append_nil] at hread
  have hroot : Grammar.readRoot? .default (mappingTokens items) = some (node, []) := by
    rw [Grammar.readRoot?, hread]
    rfl
  -- no directive or sign stands before a mapping
  have hdocument : Grammar.readDocument? (mappingTokens items) = some (node, []) := hroot
  rw [Node.ofTokens?, hdocument]
  rfl

theorem IsWord.isAllowed {w : List Char} (hw : IsWord w) : ∀ c ∈ w, isAllowed c = true :=
  fun c hc => isAllowed_of_isWordChar (hw.chars c hc)

theorem Entry.isAllowed_lines {es : List Entry} (hes : ∀ e ∈ es, e.IsPlain) (n : Nat) :
    ∀ c ∈ es.flatMap (·.line n), isAllowed c = true := by
  intro c hc
  obtain ⟨e, he, hc⟩ := List.mem_flatMap.mp hc
  have hline : ∀ c ∈ e.line n, isAllowed c = true := by
    simp only [Entry.line, List.mem_append, List.mem_cons, List.not_mem_nil, or_false, or_imp,
      forall_and, forall_eq]
    exact ⟨all_spaces (by decide), (hes e he).key.isAllowed, by decide, by decide,
      (hes e he).value.isAllowed, by decide⟩
  exact hline c hc

/-- **A text of entries and a section is read as a mapping within a mapping.** -/
theorem Node.parse?_document {top es : List Entry} {name : List Char}
    (htop : ∀ e ∈ top, e.IsPlain) (hname : Lexer.IsKey name) (hes : ∀ e ∈ es, e.IsPlain)
    (hne : es ≠ []) :
    Node.parse? (String.ofList (documentText top name es))
      = some (some (mappingNode (documentItems top name es))) := by
  have hallowed : ∀ c ∈ documentText top name es, isAllowed c = true := by
    simp only [documentText, sectionLine, List.forall_mem_append, List.mem_cons, List.not_mem_nil,
      or_false, or_imp, forall_and, forall_eq]
    exact ⟨Entry.isAllowed_lines htop 0,
      ⟨all_spaces (by decide), hname.isAllowed, by decide, by decide⟩,
      Entry.isAllowed_lines hes 2⟩
  rw [Node.parse?, String.toList_ofList,
    Token.lex?_of_readsLines hallowed (.document htop hname hes hne)]
  exact Node.ofTokens?_mapping (Grammar.readsNode_document top es name)

end ProgramSlice.Yaml
