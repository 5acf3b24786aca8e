import ProgramSlice.Json.Value
import ProgramSlice.Text.Hex

/-!
# Reading JSON text

`Json.parse?` reads exactly the texts of the JSON grammar: blanks are the space, the tab, the line
feed and the carriage return, numbers have no superfluous zeros, and strings hold no raw control
character.

Two kinds of text follow the grammar and are still not given a value: a string with half of a
surrogate pair denotes no text, and containers may be nested only as deep as the reader is told.
Both are read over and give `withheld`.

All functions work on the characters that are left and give back what remains behind the part they
read.
-/

namespace ProgramSlice.Json

/-! ## Blanks and literals -/

/-- The blanks between the parts of a text. -/
def isSpace (c : Char) : Bool := c = ' ' || c = '\t' || c = '\n' || c = '\r'

/-- Skip blanks. -/
def skipSpace (cs : List Char) : List Char := cs.dropWhile isSpace

/-- Read a fixed word. -/
def readWord (word : List Char) (cs : List Char) : Option (List Char) :=
  if word.isPrefixOf cs then some (cs.drop word.length) else none

/-! ## Numbers -/

/-- Read the digits of the integer part: a zero alone, or digits that start with another one. -/
def readIntegerDigits (cs : List Char) : Option (List Char × List Char) :=
  match cs with
  | '0' :: rest => some (['0'], rest)
  | c :: _ =>
      if c.isDigit then some (cs.takeWhile Char.isDigit, cs.dropWhile Char.isDigit) else none
  | [] => none

/-- Read one or more digits. -/
def readDigits (cs : List Char) : Option (List Char × List Char) :=
  match cs.takeWhile Char.isDigit with
  | [] => none
  | digits => some (digits, cs.dropWhile Char.isDigit)

/-- Read the fraction of a number, which may be missing. -/
def readFraction : List Char → Option (List Char × List Char)
  | '.' :: rest => (readDigits rest).map fun (digits, rest) => ('.' :: digits, rest)
  | cs => some ([], cs)

/-- Read the sign of an exponent, which may be missing. -/
def readSign : List Char → List Char × List Char
  | '+' :: rest => (['+'], rest)
  | '-' :: rest => (['-'], rest)
  | cs => ([], cs)

/-- Read the exponent of a number, which may be missing. -/
def readExponent : List Char → Option (List Char × List Char)
  | 'e' :: rest =>
      (readDigits (readSign rest).2).map fun (digits, rest') =>
        ('e' :: (readSign rest).1 ++ digits, rest')
  | 'E' :: rest =>
      (readDigits (readSign rest).2).map fun (digits, rest') =>
        ('E' :: (readSign rest).1 ++ digits, rest')
  | cs => some ([], cs)

/-- The value of a number by its parts.  It is an integer if it has neither fraction nor exponent;
a zero with a sign is none. -/
def numberOf (negative : Bool) (digits tail : List Char) : Json :=
  if tail.isEmpty && !(negative && digits = ['0']) then
    let n := Nat.ofDigitChars 10 digits 0
    .integer (if negative then -(n : Int) else n)
  else .decimal (String.ofList ((if negative then ['-'] else []) ++ digits ++ tail))

/-- Read a number without its sign. -/
def readUnsigned (negative : Bool) (cs : List Char) : Option (Json × List Char) := do
  let (digits, rest) ← readIntegerDigits cs
  let (fraction, rest) ← readFraction rest
  let (exponent, rest) ← readExponent rest
  some (numberOf negative digits (fraction ++ exponent), rest)

/-- Read a number. -/
def readNumber : List Char → Option (Json × List Char)
  | '-' :: rest => readUnsigned true rest
  | cs => readUnsigned false cs

/-! ## Strings -/

/-- A unit of a string: a character, or half of a surrogate pair written as an escape. -/
inductive StringUnit where
  /-- A character. -/
  | char (c : Char)
  /-- Half of a surrogate pair. -/
  | surrogate (code : Nat)
deriving DecidableEq

/-- The unit of a four-digit escape. -/
def unitOfCode (code : Nat) : StringUnit :=
  if 0xD800 ≤ code && code ≤ 0xDFFF then .surrogate code else .char (Char.ofNat code)

/-- The character of a one-letter escape. -/
def escaped? : Char → Option Char
  | '"' => some '"'
  | '\\' => some '\\'
  | '/' => some '/'
  | 'b' => some '\x08'
  | 'f' => some '\x0c'
  | 'n' => some '\n'
  | 'r' => some '\r'
  | 't' => some '\t'
  | _ => none

/-- Put a unit before a string that was read. -/
def consUnit (u : StringUnit) (s : List StringUnit × List Char) : List StringUnit × List Char :=
  (u :: s.1, s.2)

/-- Read a string behind its opening quote, up to and with the closing one. -/
def readUnits : List Char → Option (List StringUnit × List Char)
  | [] => none
  | '"' :: rest => some ([], rest)
  | '\\' :: 'u' :: a :: b :: c :: d :: rest =>
      match Text.hexNumber? [a, b, c, d] with
      | some code => (readUnits rest).map (consUnit (unitOfCode code))
      | none => none
  | '\\' :: e :: rest =>
      match escaped? e with
      | some c => (readUnits rest).map (consUnit (.char c))
      | none => none
  | c :: rest =>
      if c = '\\' || c.toNat < 0x20 then none else (readUnits rest).map (consUnit (.char c))

/-- The character that a surrogate pair stands for. -/
def pairChar (high low : Nat) : Char :=
  Char.ofNat (0x10000 + (high - 0xD800) * 0x400 + (low - 0xDC00))

/-- The characters of a string, if no surrogate stands without its partner. -/
def joinUnits : List StringUnit → Option (List Char)
  | [] => some []
  | .char c :: rest => (joinUnits rest).map (c :: ·)
  | .surrogate high :: .surrogate low :: rest =>
      if high ≤ 0xDBFF && 0xDC00 ≤ low then (joinUnits rest).map (pairChar high low :: ·) else none
  | .surrogate _ :: _ => none

/-- Read a string behind its opening quote; it has no value if a surrogate stands alone. -/
def readString (cs : List Char) : Option (Option String × List Char) :=
  (readUnits cs).map fun (units, rest) => ((joinUnits units).map String.ofList, rest)

/-! ## Values -/

/-- The value of a string that was read. -/
def ofString : Option String → Json
  | some s => .string s
  | none => .withheld

/-- The value of an object that was read, if all its names have one. -/
def ofFields (fields : List (Option String × Json)) : Json :=
  match fields.mapM fun (name, j) => name.map (·, j) with
  | some fields => .object fields
  | none => .withheld

/-- The value of a container, if there was room for it. -/
def contain (room : Nat) (j : Json) : Json := if room = 0 then .withheld else j

mutual

/-- Read a value.  `room` is how many containers may still be opened inside each other; `fuel`
bounds the calls and never runs out if it is at least twice the number of characters. -/
def readValue (fuel room : Nat) (cs : List Char) : Option (Json × List Char) :=
  match fuel with
  | 0 => none
  | fuel + 1 =>
      match skipSpace cs with
      | 'n' :: rest => (readWord "ull".toList rest).map (Json.null, ·)
      | 't' :: rest => (readWord "rue".toList rest).map (Json.bool true, ·)
      | 'f' :: rest => (readWord "alse".toList rest).map (Json.bool false, ·)
      | '"' :: rest => (readString rest).map fun (s, rest) => (ofString s, rest)
      | '[' :: rest =>
          match skipSpace rest with
          | ']' :: rest => some (contain room (.array []), rest)
          | rest =>
              (readItems fuel (room - 1) rest).map fun (items, rest) =>
                (contain room (.array items), rest)
      | '{' :: rest =>
          match skipSpace rest with
          | '}' :: rest => some (contain room (.object []), rest)
          | rest =>
              (readFields fuel (room - 1) rest).map fun (fields, rest) =>
                (contain room (ofFields fields), rest)
      | cs => readNumber cs

/-- Read the items of an array up to and with its end. -/
def readItems (fuel room : Nat) (cs : List Char) : Option (List Json × List Char) :=
  match fuel with
  | 0 => none
  | fuel + 1 =>
      match readValue fuel room cs with
      | none => none
      | some (j, rest) =>
          match skipSpace rest with
          | ',' :: rest => (readItems fuel room rest).map fun (items, rest) => (j :: items, rest)
          | ']' :: rest => some ([j], rest)
          | _ => none

/-- Read the fields of an object up to and with its end. -/
def readFields (fuel room : Nat) (cs : List Char) :
    Option (List (Option String × Json) × List Char) :=
  match fuel with
  | 0 => none
  | fuel + 1 =>
      match skipSpace cs with
      | '"' :: rest =>
          match readString rest with
          | none => none
          | some (name, rest) =>
              match skipSpace rest with
              | ':' :: rest =>
                  match readValue fuel room rest with
                  | none => none
                  | some (j, rest) =>
                      match skipSpace rest with
                      | ',' :: rest =>
                          (readFields fuel room rest).map fun (fields, rest) =>
                            ((name, j) :: fields, rest)
                      | '}' :: rest => some ([(name, j)], rest)
                      | _ => none
              | _ => none
      | _ => none

end

/-- Read a text that is one value with blanks around it, keeping containers up to a depth. -/
def parseWithin? (room : Nat) (text : String) : Option Json :=
  let cs := text.toList
  match readValue (2 * cs.length + 2) room cs with
  | some (j, rest) => if (skipSpace rest).isEmpty then some j else none
  | none => none

/-- How deep containers may be nested in a text. -/
def maxDepth : Nat := 127

/-- Read a text that is one value with blanks around it. -/
def parse? (text : String) : Option Json := parseWithin? maxDepth text

end ProgramSlice.Json
