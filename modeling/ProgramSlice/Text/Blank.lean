/-!
# Blank space at the ends of a text

A label is shown without the blank space around it.  *Blank* here is the `White_Space` property of
Unicode: the ASCII controls from tab to carriage return and the space, the next-line control, the
no-break space, and the wider spaces and separators.  Format characters that merely have no width
(the zero-width space, the byte order mark) are not blank.
-/

namespace ProgramSlice.Text

/-- The code points with the `White_Space` property, as ranges whose ends belong to them. -/
def blankRanges : List (Nat × Nat) :=
  [(0x09, 0x0D), (0x20, 0x20), (0x85, 0x85), (0xA0, 0xA0), (0x1680, 0x1680), (0x2000, 0x200A),
    (0x2028, 0x2029), (0x202F, 0x202F), (0x205F, 0x205F), (0x3000, 0x3000)]

/-- Whether a character is blank. -/
def isBlank (c : Char) : Bool :=
  blankRanges.any fun range => range.1 ≤ c.toNat && c.toNat ≤ range.2

/-- The characters from the first to the last that is not blank. -/
def trimList (cs : List Char) : List Char :=
  ((cs.dropWhile isBlank).reverse.dropWhile isBlank).reverse

/-- A text without the blank space around it. -/
def trim (s : String) : String := String.ofList (trimList s.toList)

end ProgramSlice.Text
