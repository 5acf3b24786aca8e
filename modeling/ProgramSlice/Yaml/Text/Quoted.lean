import ProgramSlice.Text.Hex
import ProgramSlice.Yaml.Text.Gap

/-!
# Quoted scalars

Between single quotes every character stands for itself and a quote is written twice.  Between
double quotes a backslash begins an escape, and one at the end of a line joins the line with the
next.  In both, gaps are folded as in plain scalars.
-/

namespace ProgramSlice.Yaml.Quoted

/-- The two ways of quoting. -/
inductive Quote where
  | single
  | double
deriving DecidableEq

/-- The quote character. -/
def Quote.char : Quote → Char
  | .single => '\''
  | .double => '"'

/-- The character of a one-letter escape. -/
def escaped? : Char → Option Char
  | '0' => some '\x00'
  | 'a' => some '\x07'
  | 'b' => some '\x08'
  | 't' => some '\t'
  | '\t' => some '\t'
  | 'n' => some '\n'
  | 'v' => some '\x0b'
  | 'f' => some '\x0c'
  | 'r' => some '\r'
  | 'e' => some '\x1b'
  | ' ' => some ' '
  | '"' => some '"'
  | '/' => some '/'
  | '\\' => some '\\'
  | 'N' => some '\u0085'
  | '_' => some '\u00a0'
  | 'L' => some '\u2028'
  | 'P' => some '\u2029'
  | _ => none

/-- The character of a numeric escape, if the number is that of a character. -/
def charOf? (digits : List Char) : Option Char :=
  (Text.hexNumber? digits).bind fun n => if n.isValidChar then some (Char.ofNat n) else none

/-- Put a character before a word that was read. -/
def consChar (c : Char) (word : List Char × List Char) : List Char × List Char :=
  (c :: word.1, word.2)

/-- Read the rest of a word between single quotes. -/
def readSingle : List Char → List Char × List Char
  | [] => ([], [])
  | '\'' :: '\'' :: rest => consChar '\'' (readSingle rest)
  | c :: rest =>
      if c = '\'' || isBlankOrBreak c then ([], c :: rest) else consChar c (readSingle rest)

/-- Read the rest of a word between double quotes, up to a gap, the closing quote, or a backslash
that joins lines. -/
def readDouble? : List Char → Option (List Char × List Char)
  | [] => some ([], [])
  | '\\' :: 'x' :: a :: b :: rest =>
      match charOf? [a, b] with
      | some c => (readDouble? rest).map (consChar c)
      | none => none
  | '\\' :: 'u' :: a :: b :: c :: d :: rest =>
      match charOf? [a, b, c, d] with
      | some c => (readDouble? rest).map (consChar c)
      | none => none
  | '\\' :: 'U' :: a :: b :: c :: d :: e :: f :: g :: h :: rest =>
      match charOf? [a, b, c, d, e, f, g, h] with
      | some c => (readDouble? rest).map (consChar c)
      | none => none
  | '\\' :: e :: rest =>
      if isBreak e then some ([], '\\' :: e :: rest)
      else
        match escaped? e with
        | some c => (readDouble? rest).map (consChar c)
        | none => none
  | c :: rest =>
      if c = '\\' then none
      else if c = '"' || isBlankOrBreak c then some ([], c :: rest)
      else (readDouble? rest).map (consChar c)

example : readSingle "it''s' x".toList = ("it's".toList, "' x".toList) := by decide

example : readDouble? "\\x41\\u00e9\\t\" x".toList = some ("Aé\t".toList, "\" x".toList) := by
  decide

example : readDouble? "\\q\"".toList = none ∧ readDouble? "\\ud800\"".toList = none := by decide

/-- Read the rest of a word between quotes. -/
def readWord? : Quote → List Char → Option (List Char × List Char)
  | .single, cs => some (readSingle cs)
  | .double, cs => readDouble? cs

/-- Read on in a scalar that has this text so far.  A line may not begin with the sign of a
document, and the text may not end. -/
def readFrom? (q : Quote) : (fuel : Nat) → List Char → Cursor → Option (List Char × Cursor)
  | 0, _, _ => none
  | fuel + 1, text, c =>
      if c.atDocumentSign || c.rest.isEmpty then none
      else
        match readWord? q c.rest with
        | none => none
        | some (word, rest) =>
            let text := text ++ word
            let c := c.moveTo rest
            if startsWith (· = q.char) rest then some (text, c.forward 1)
            else if startsWith (· = '\\') rest then
              match (c.forward 1).readBreak? with
              | none => none
              | some (_, c) =>
                  match Gap.readBreaks? 0 c with
                  | none => none
                  | some (breaks, c) => readFrom? q fuel (text ++ breaks) c
            else
              match Gap.read? 0 c with
              | none => none
              | some (gap, c) => readFrom? q fuel (text ++ gap.text) c

/-- Read a scalar that begins with a quote. -/
def read? (q : Quote) (c : Cursor) : Option (List Char × Cursor) :=
  readFrom? q (c.rest.length + 1) [] (c.forward 1)

end ProgramSlice.Yaml.Quoted
