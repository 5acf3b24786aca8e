import ProgramSlice.Yaml.Text.Gap

/-!
# Plain scalars

A plain scalar is written without quotes.  It ends before a colon that ends a word, before a
comment, before the sign of a document, and where a line is indented too little to continue it;
inside a flow collection also before the indicators of the collection.
-/

namespace ProgramSlice.Yaml.Plain

/-- Read the rest of a word.  Inside a flow collection a colon may not touch an indicator. -/
def readWord? (flow : Bool) : List Char → Option (List Char × List Char)
  | [] => some ([], [])
  | c :: rest =>
      if isBlankOrBreak c then some ([], c :: rest)
      else if flow && c = ':' && startsWith (fun d => isFlowIndicator d || d = '?') rest then none
      else if c = ':' && endsWord rest || flow && isFlowIndicator c then some ([], c :: rest)
      else (readWord? flow rest).map fun (word, rest) => (c :: word, rest)

/-- A plain scalar that was read. -/
structure Reading where
  /-- Its text. -/
  text : List Char
  /-- Whether the line was broken behind its last word. -/
  broken : Bool
  /-- What follows it and the blanks behind it. -/
  cursor : Cursor

/-- Read the words of a scalar that has this text so far and this gap behind it.  `column` is where
a continuation line may begin at the earliest. -/
def readFrom? (flow : Bool) (column : Nat) :
    (fuel : Nat) → List Char → Gap → Cursor → Option Reading
  | 0, _, _, _ => none
  | fuel + 1, text, gap, c =>
      if c.atDocumentSign || startsWith (· = '#') c.rest then some ⟨text, gap.isBroken, c⟩
      else
        match readWord? flow c.rest with
        | none => none
        | some ([], _) => some ⟨text, gap.isBroken, c⟩
        | some (word, rest) =>
            let text := text ++ gap.text ++ word
            let c := c.moveTo rest
            match Gap.read? column c with
            | none => none
            | some (gap, d) =>
                if endsWord rest && !rest.isEmpty && (flow || column ≤ d.column) then
                  readFrom? flow column fuel text gap d
                else some ⟨text, gap.isBroken, d⟩

/-- Read a plain scalar. -/
def read? (flow : Bool) (column : Nat) (c : Cursor) : Option Reading :=
  readFrom? flow column (c.rest.length + 1) [] {} c

end ProgramSlice.Yaml.Plain
