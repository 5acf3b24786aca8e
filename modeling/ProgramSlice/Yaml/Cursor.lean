import ProgramSlice.Yaml.Character

/-!
# A place in a text

A cursor holds what is left of a text together with the place it stands at.  Lines and columns
decide about indentation, and a column is one character wide; the offset, which bounds how long a
key may be, is counted in octets.
-/

namespace ProgramSlice.Yaml

/-- A place in a text. -/
structure Mark where
  /-- The number of octets before it, in UTF-8. -/
  offset : Nat := 0
  /-- The number of lines before it. -/
  line : Nat := 0
  /-- The number of characters before it on its line. -/
  column : Nat := 0
deriving DecidableEq

/-- A place in a text and what follows it. -/
structure Cursor where
  /-- What follows. -/
  rest : List Char
  /-- Where it is. -/
  mark : Mark := {}
deriving DecidableEq

namespace Cursor

/-- The column of a cursor. -/
def column (c : Cursor) : Nat := c.mark.column

/-- How many octets the next characters take in UTF-8. -/
def octets (c : Cursor) (n : Nat) : Nat :=
  (c.rest.take n).foldl (fun size char => size + char.utf8Size) 0

/-- Move forward within a line. -/
def forward (c : Cursor) (n : Nat) : Cursor :=
  ⟨c.rest.drop n,
    { c.mark with offset := c.mark.offset + c.octets n, column := c.mark.column + n }⟩

/-- Move forward within a line to where this text is left. -/
def moveTo (c : Cursor) (rest : List Char) : Cursor :=
  { c.forward (c.rest.length - rest.length) with rest }

/-- Move past the characters of a class, which has no line break in it. -/
def skipWhile (c : Cursor) (p : Char → Bool) : Cursor := c.forward (c.rest.takeWhile p).length

/-- Moving forward leaves no more than there was. -/
theorem length_skipWhile_le (c : Cursor) (p : Char → Bool) :
    (c.skipWhile p).rest.length ≤ c.rest.length := by
  simp [skipWhile, forward]

/-- Begin a new line after so many characters. -/
def newLine (c : Cursor) (n : Nat) : Cursor :=
  ⟨c.rest.drop n, ⟨c.mark.offset + c.octets n, c.mark.line + 1, 0⟩⟩

/-- Read a line break.  It counts as a line feed, unless it is one of the Unicode separators, which
stand for themselves. -/
def readBreak? (c : Cursor) : Option (Char × Cursor) :=
  match c.rest with
  | '\r' :: '\n' :: _ => some ('\n', c.newLine 2)
  | b :: _ =>
      if isBreak b then
        some (if b.toNat = 0x2028 || b.toNat = 0x2029 then b else '\n', c.newLine 1)
      else none
  | [] => none

/-- A line break is at least one character. -/
theorem length_lt_of_readBreak? {c d : Cursor} {b : Char} (h : c.readBreak? = some (b, d)) :
    d.rest.length < c.rest.length := by
  unfold readBreak? at h
  split at h
  · next hrest =>
    cases h
    simp only [newLine, hrest, List.length_drop, List.length_cons]
    omega
  · next hrest =>
    split at h
    · cases h
      simp only [newLine, hrest, List.length_drop, List.length_cons]
      omega
    · simp at h
  · simp at h

/-- Whether a line begins here with the sign that starts or ends a document. -/
def atDocumentSign (c : Cursor) : Bool :=
  c.column = 0 && (c.rest.take 3 = ['-', '-', '-'] || c.rest.take 3 = ['.', '.', '.'])
    && endsWord (c.rest.drop 3)

/-- Move past a byte order mark, if a line begins here with one.  It is as wide as any character. -/
def skipMark (c : Cursor) : Cursor :=
  if c.column = 0 && startsWith (· = byteOrderMark) c.rest then c.forward 1 else c

/-- Behind a byte order mark no more is left than before it. -/
theorem length_skipMark_le (c : Cursor) : c.skipMark.rest.length ≤ c.rest.length := by
  unfold skipMark
  split
  · simp only [forward, List.length_drop]
    omega
  · exact Nat.le_refl _

/-- Move past a comment, if one begins here. -/
def skipComment (c : Cursor) : Cursor :=
  if startsWith (· = '#') c.rest then c.skipWhile (!isBreak ·) else c

/-- Behind a comment no more is left than before it. -/
theorem length_skipComment_le (c : Cursor) : c.skipComment.rest.length ≤ c.rest.length := by
  unfold skipComment
  split
  · exact length_skipWhile_le c _
  · exact Nat.le_refl _

/-- Move past blanks and a comment to the end of the line and past the line break; nothing else may
stand there. -/
def skipRestOfLine? (c : Cursor) : Option Cursor :=
  let c := (c.skipWhile isBlank).skipComment
  match c.readBreak? with
  | some (_, c) => some c
  | none => if c.rest.isEmpty then some c else none

end Cursor

end ProgramSlice.Yaml
