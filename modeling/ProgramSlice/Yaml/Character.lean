/-!
# The characters of YAML

The classes of characters that the syntax of YAML is stated by.  Blanks are the space and the tab.
Lines are broken by a line feed, a carriage return, both in this order, the next-line control, or
one of the two Unicode separators.  Not every character may stand in a text at all.
-/

namespace ProgramSlice.Yaml

/-- A space or a tab. -/
def isBlank (c : Char) : Bool := c = ' ' || c = '\t'

/-- A character that ends a line. -/
def isBreak (c : Char) : Bool :=
  c = '\n' || c = '\r' || c.toNat = 0x85 || c.toNat = 0x2028 || c.toNat = 0x2029

/-- A character that ends a word. -/
def isBlankOrBreak (c : Char) : Bool := isBlank c || isBreak c

/-- A character of a name: an ASCII letter or digit, a low line or a hyphen. -/
def isNameChar (c : Char) : Bool := c.isAlphanum || c = '_' || c = '-'

/-- A bracket or comma of a flow collection. -/
def isFlowIndicator (c : Char) : Bool :=
  c = ',' || c = '[' || c = ']' || c = '{' || c = '}'

/-- A character that may stand in a text: no control character but tab, line feed, carriage return
and next line, and none of the code points that are no characters at the end of the plane. -/
def isAllowed (c : Char) : Bool :=
  let n := c.toNat
  n = 0x09 || n = 0x0A || n = 0x0D || 0x20 ≤ n && n ≤ 0x7E || n = 0x85
    || 0xA0 ≤ n && n ≤ 0xD7FF || 0xE000 ≤ n && n ≤ 0xFFFD || 0x10000 ≤ n

/-- The mark that may stand at the beginning of a line. -/
def byteOrderMark : Char := '\uFEFF'

/-- Whether a word ends here: at the end of the text, a blank or a line break. -/
def endsWord : List Char → Bool
  | [] => true
  | c :: _ => isBlankOrBreak c

/-- Whether the next character is of a class. -/
def startsWith (p : Char → Bool) : List Char → Bool
  | [] => false
  | c :: _ => p c

end ProgramSlice.Yaml
