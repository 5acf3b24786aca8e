/-!
# Positions in a program text

A span covers lines and columns from a start to an end.  Its numbers are words of 32 bits, and
nothing asks that the end comes after the start.
-/

namespace ProgramSlice

/-- A stretch of program text. -/
structure Span where
  /-- The line it starts on. -/
  startLine : UInt32
  /-- The column it starts at. -/
  startColumn : UInt32
  /-- The line it ends on. -/
  endLine : UInt32
  /-- The column it ends at. -/
  endColumn : UInt32
deriving DecidableEq

namespace Span

/-- A span within one line. -/
def onLine (line startColumn endColumn : UInt32) : Span := ⟨line, startColumn, line, endColumn⟩

/-- The span all of whose numbers are zero. -/
def zero : Span := ⟨0, 0, 0, 0⟩

/-- Whether a line lies between the first and the last line of a span, both counted. -/
def containsLine (s : Span) (line : UInt32) : Bool := s.startLine ≤ line && line ≤ s.endLine

end Span

end ProgramSlice
