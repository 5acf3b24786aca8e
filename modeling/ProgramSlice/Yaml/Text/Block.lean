import ProgramSlice.Yaml.Text.Gap

/-!
# Block scalars

A block scalar stands on the lines below its header, indented deeper than what contains it.  A
literal one keeps its lines, a folded one joins lines that do not begin with a blank.  The header
may state the indentation, and what becomes of the line breaks at the end: by default one is kept,
a minus drops it, and a plus keeps all of them.
-/

namespace ProgramSlice.Yaml.Block

/-- What becomes of the line breaks at the end. -/
inductive Chomping where
  /-- One is kept. -/
  | clip
  /-- None is kept. -/
  | strip
  /-- All are kept. -/
  | keep
deriving DecidableEq

/-- The header of a block scalar. -/
structure Header where
  /-- What becomes of the line breaks at the end. -/
  chomping : Chomping := .clip
  /-- By how much the text is indented, if that is stated. -/
  increment : Option Nat := none
deriving DecidableEq

/-- Read the sign of a header, if there is one. -/
def readChomping : List Char → Chomping × List Char
  | '+' :: rest => (.keep, rest)
  | '-' :: rest => (.strip, rest)
  | cs => (.clip, cs)

/-- Read the digit of a header, if there is one; a zero is refused. -/
def readIncrement? : List Char → Option (Option Nat × List Char)
  | c :: rest =>
      if c = '0' then none
      else if c.isDigit then some (some (c.toNat - 0x30), rest)
      else some (none, c :: rest)
  | [] => some (none, [])

/-- Read a header: a sign and a digit in either order, each of which may be missing. -/
def readHeader? (cs : List Char) : Option (Header × List Char) :=
  match readChomping cs with
  | (.clip, cs) =>
      match readIncrement? cs with
      | none => none
      | some (none, cs) => some ({}, cs)
      | some (some n, cs) =>
          let (chomping, cs) := readChomping cs
          some ({ chomping, increment := some n }, cs)
  | (chomping, cs) => (readIncrement? cs).map fun (increment, cs) => ({ chomping, increment }, cs)

/-- Skip the spaces of an indentation: up to a column if it is known, all of them if not. -/
def skipIndentation (indent : Option Nat) (c : Cursor) : Cursor :=
  let spaces := (c.rest.takeWhile (· = ' ')).length
  match indent with
  | none => c.forward spaces
  | some n => c.forward (min spaces (n - c.column))

/-- Whether a cursor stands left of an indentation, or the indentation is not known. -/
def isLeftOf (c : Cursor) : Option Nat → Bool
  | none => true
  | some n => c.column < n

/-- Read empty lines and the indentation of the next line.  Besides the breaks, it gives the
greatest column that was met.  No tab may stand in the indentation. -/
def readBreaks? (indent : Option Nat) (c : Cursor) : Option (List Char × Nat × Cursor) :=
  if isLeftOf (skipIndentation indent c) indent
      && startsWith (· = '\t') (skipIndentation indent c).rest then none
  else
    match _h : (skipIndentation indent c).readBreak? with
    | none => some ([], (skipIndentation indent c).column, skipIndentation indent c)
    | some (b, d) =>
        (readBreaks? indent d).map fun (breaks, widest, e) =>
          (b :: breaks, max (skipIndentation indent c).column widest, e)
termination_by c.rest.length
decreasing_by
  have := Cursor.length_lt_of_readBreak? _h
  unfold skipIndentation at this
  split at this <;> simp only [Cursor.forward, List.length_drop] at this <;> omega

/-- The state between two lines of a block scalar. -/
structure Progress where
  /-- The text so far. -/
  text : List Char := []
  /-- The break at the end of the last line. -/
  lastBreak : List Char := []
  /-- The breaks of the empty lines behind it. -/
  emptyLines : List Char := []
  /-- Whether the last line began with a blank. -/
  lastIndented : Bool := false

/-- The breaks before a line that begins with a blank or not. -/
def joint (folded : Bool) (p : Progress) (indented : Bool) : List Char :=
  if folded && p.lastBreak = ['\n'] && !p.lastIndented && !indented then
    if p.emptyLines.isEmpty then [' '] else p.emptyLines
  else p.lastBreak ++ p.emptyLines

/-- Read the lines that begin at an indentation. -/
def readLines? (folded : Bool) (indent : Nat) : (fuel : Nat) → Progress → Cursor →
    Option (Progress × Cursor)
  | 0, _, _ => none
  | fuel + 1, p, c =>
      if c.column = indent && !c.rest.isEmpty then
        let indented := startsWith isBlank c.rest
        let text := p.text ++ joint folded p indented ++ c.rest.takeWhile (!isBreak ·)
        let c := c.skipWhile (!isBreak ·)
        let (lastBreak, c) := match c.readBreak? with
          | some (b, c) => ([b], c)
          | none => ([], c)
        match readBreaks? (some indent) c with
        | none => none
        | some (emptyLines, _, c) =>
            readLines? folded indent fuel ⟨text, lastBreak, emptyLines, indented⟩ c
      else some (p, c)

/-- The text of a scalar after its last line. -/
def finish (chomping : Chomping) (p : Progress) : List Char :=
  match chomping with
  | .strip => p.text
  | .clip => p.text ++ p.lastBreak
  | .keep => p.text ++ p.lastBreak ++ p.emptyLines

/-- Read a block scalar behind its indicator.  `column` is where a block that contains it may have
its text at the earliest. -/
def read? (folded : Bool) (column : Nat) (c : Cursor) : Option (List Char × Cursor) := do
  let (header, rest) ← readHeader? c.rest
  let c ← (c.moveTo rest).skipRestOfLine?
  let stated := header.increment.map (column - 1 + ·)
  let (emptyLines, widest, c) ← readBreaks? stated c
  let indent := stated.getD (max widest (max column 1))
  let (p, c) ← readLines? folded indent (c.rest.length + 1) { emptyLines } c
  some (finish header.chomping p, c)

end ProgramSlice.Yaml.Block
