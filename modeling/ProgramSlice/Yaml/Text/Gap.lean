import ProgramSlice.Yaml.Cursor

/-!
# Gaps between the words of a scalar

A scalar may go on over several lines.  Between two of its words stands a gap: blanks on one line,
or line breaks with the blanks around them.  A gap within a line stays as it is.  A gap with breaks
is folded: one break becomes a space, and of several the first is dropped.
-/

namespace ProgramSlice.Yaml

/-- What stands between two words. -/
structure Gap where
  /-- The blanks, if there is no line break. -/
  blanks : List Char := []
  /-- The line breaks. -/
  breaks : List Char := []
deriving DecidableEq

namespace Gap

/-- Whether the line is broken in a gap. -/
def isBroken (g : Gap) : Bool := !g.breaks.isEmpty

/-- What a gap contributes to the text. -/
def text (g : Gap) : List Char :=
  match g.breaks with
  | [] => g.blanks
  | ['\n'] => [' ']
  | '\n' :: more => more
  | breaks => breaks

example : text ⟨[], ['\n']⟩ = [' '] ∧ text ⟨[], ['\n', '\n']⟩ = ['\n'] ∧
    text ⟨[' ', '\t'], []⟩ = [' ', '\t'] ∧ text ⟨[], ['\u2028']⟩ = ['\u2028'] := by decide

/-- Whether a tab stands here left of a column, with nothing but blanks before it. -/
def tabBefore (c : Cursor) (column : Nat) : Bool :=
  ((c.rest.takeWhile isBlank).take (column - c.column)).contains '\t'

/-- Read the line breaks and blanks that follow, giving the breaks.  No tab may stand left of a
column at the beginning of a line. -/
def readBreaks? (column : Nat) (c : Cursor) : Option (List Char × Cursor) :=
  if tabBefore c column then none
  else
    match _h : (c.skipWhile isBlank).readBreak? with
    | none => some ([], c.skipWhile isBlank)
    | some (b, d) => (readBreaks? column d).map fun (breaks, e) => (b :: breaks, e)
termination_by c.rest.length
decreasing_by
  have := Cursor.length_lt_of_readBreak? _h
  simp only [Cursor.skipWhile, Cursor.forward, List.length_drop] at this
  omega

/-- Read a gap. -/
def read? (column : Nat) (c : Cursor) : Option (Gap × Cursor) :=
  match (c.skipWhile isBlank).readBreak? with
  | none => some ({ blanks := c.rest.takeWhile isBlank }, c.skipWhile isBlank)
  | some (b, d) => (readBreaks? column d).map fun (breaks, e) => ({ breaks := b :: breaks }, e)

end Gap

end ProgramSlice.Yaml
