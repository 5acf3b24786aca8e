import ProgramSlice.Json.Value
import ProgramSlice.Text.Hex

/-!
# Writing JSON text

`Json.render` writes a value in a layout.  A layout says what stands behind the colon of a field
and how lines are broken inside containers; `Layout.compact` breaks none and `Layout.indented`
gives every item and field its own line, two blanks deeper than its container.  An empty container
is written without a break in either.

In a string only the quote, the backslash and the control characters below the blank are escaped;
every other character stands for itself.
-/

namespace ProgramSlice.Json

/-! ## Literals -/

/-- How a character is written inside a string. -/
def escapeChar (c : Char) : List Char :=
  if c = '"' then ['\\', '"']
  else if c = '\\' then ['\\', '\\']
  else if c.toNat < 0x20 then
    if c.toNat = 0x08 then ['\\', 'b']
    else if c.toNat = 0x09 then ['\\', 't']
    else if c.toNat = 0x0A then ['\\', 'n']
    else if c.toNat = 0x0C then ['\\', 'f']
    else if c.toNat = 0x0D then ['\\', 'r']
    else ['\\', 'u', '0', '0', Text.hexDigit (c.toNat / 16), Text.hexDigit (c.toNat % 16)]
  else [c]

/-- A string with its quotes. -/
def renderString (s : String) : List Char := '"' :: s.toList.flatMap escapeChar ++ ['"']

/-- A whole number in decimal notation. -/
def renderInteger : Int → List Char
  | .ofNat n => Nat.toDigits 10 n
  | .negSucc n => '-' :: Nat.toDigits 10 (n + 1)

/-! ## Layouts -/

/-- How the parts of a text are set apart. -/
structure Layout where
  /-- What stands behind the colon of a field. -/
  afterColon : List Char
  /-- How a line is broken inside this many containers. -/
  lineBreak : Nat → List Char

/-- Everything in one line without blanks. -/
def Layout.compact : Layout := ⟨[], fun _ => []⟩

/-- One line for every item and field, indented by two blanks a container. -/
def Layout.indented : Layout := ⟨[' '], fun level => '\n' :: List.replicate (2 * level) ' '⟩

mutual

/-- The text of a value inside this many containers. -/
def render (l : Layout) (level : Nat) : Json → List Char
  | .null => "null".toList
  | .bool true => "true".toList
  | .bool false => "false".toList
  | .integer n => renderInteger n
  | .decimal literal => literal.toList
  | .string s => renderString s
  | .array [] => ['[', ']']
  | .array (j :: rest) =>
      '[' :: l.lineBreak (level + 1) ++ (render l (level + 1) j ++ renderItems l (level + 1) rest)
        ++ l.lineBreak level ++ [']']
  | .object [] => ['{', '}']
  | .object ((name, j) :: rest) =>
      '{' :: l.lineBreak (level + 1)
        ++ (renderString name ++ ':' :: l.afterColon ++ render l (level + 1) j
          ++ renderFields l (level + 1) rest)
        ++ l.lineBreak level ++ ['}']
  | .withheld => "null".toList

/-- The text of the further items of an array, each behind a comma. -/
def renderItems (l : Layout) (level : Nat) : List Json → List Char
  | [] => []
  | j :: rest => ',' :: l.lineBreak level ++ (render l level j ++ renderItems l level rest)

/-- The text of the further fields of an object, each behind a comma. -/
def renderFields (l : Layout) (level : Nat) : List (String × Json) → List Char
  | [] => []
  | (name, j) :: rest =>
      ',' :: l.lineBreak level
        ++ (renderString name ++ ':' :: l.afterColon ++ render l level j
          ++ renderFields l level rest)

end

/-- The text of a value in one line. -/
def compact (j : Json) : String := String.ofList (render .compact 0 j)

/-- The text of a value over several lines. -/
def indented (j : Json) : String := String.ofList (render .indented 0 j)

end ProgramSlice.Json
