import ProgramSlice.Text.Hex

/-!
# Scalars

A scalar is a text together with how it was written and the tag it was given.  What value it stands
for is decided by its text alone, and only if it was written plainly; quotes and blocks make it a
string.  There is one exception: a literal block that is tagged with a type is read as of that type.

The values are those of the core schema: null, truth values and unsigned integers.  Integers may be
decimal without superfluous zeros, or carry one of the marks `0x`, `0o` and `0b`.
-/

namespace ProgramSlice.Yaml

/-- How a scalar was written. -/
inductive ScalarStyle where
  /-- Without quotes. -/
  | plain
  /-- Between single or double quotes. -/
  | quoted
  /-- As a block that keeps its lines. -/
  | literal
  /-- As a block whose lines are joined. -/
  | folded
deriving DecidableEq

/-- A scalar. -/
structure Scalar where
  /-- The tag that was given to it. -/
  tag : Option String := none
  /-- How it was written. -/
  style : ScalarStyle := .plain
  /-- Its text. -/
  text : String := ""
deriving DecidableEq

/-- The tag of a type of the core schema. -/
def coreTag (name : String) : String := "tag:yaml.org,2002:" ++ name

/-- Whether a text says that there is no value. -/
def isNullText (text : String) : Bool :=
  text = "null" || text = "Null" || text = "NULL" || text = "~"

/-- The truth value that a text stands for. -/
def boolOfText? (text : String) : Option Bool :=
  if text = "true" || text = "True" || text = "TRUE" then some true
  else if text = "false" || text = "False" || text = "FALSE" then some false
  else none

/-- The value of a digit to a base of at most sixteen. -/
def digitValue? (base : Nat) (c : Char) : Option Nat :=
  (Text.hexValue? c).filter (· < base)

/-- The number that one or more digits stand for. -/
def numberOfDigits? (base : Nat) : List Char → Option Nat
  | [] => none
  | digits => digits.foldlM (fun n c => (digitValue? base c).map (n * base + ·)) 0

/-- Whether digits have a superfluous zero before them. -/
def hasLeadingZero : List Char → Bool
  | '0' :: _ :: _ => true
  | _ => false

/-- The number that an unsigned integer stands for, without its sign. -/
def magnitude? : List Char → Option Nat
  | '0' :: 'x' :: digits => numberOfDigits? 16 digits
  | '0' :: 'o' :: digits => numberOfDigits? 8 digits
  | '0' :: 'b' :: digits => numberOfDigits? 2 digits
  | digits => if hasLeadingZero digits then none else numberOfDigits? 10 digits

/-- The number that the text of an unsigned integer stands for; a plus may stand before it. -/
def numberOfText? (text : String) : Option Nat :=
  match text.toList with
  | '+' :: rest => magnitude? rest
  | cs => magnitude? cs

example : numberOfText? "+0x1F" = some 31 ∧ numberOfText? "0o17" = some 15 ∧
    numberOfText? "0b101" = some 5 ∧ numberOfText? "0" = some 0 := by decide

example : numberOfText? "007" = none ∧ numberOfText? "0X1F" = none ∧ numberOfText? "-0" = none ∧
    numberOfText? "1_000" = none ∧ numberOfText? "0x" = none ∧ numberOfText? "" = none := by decide

namespace Scalar

/-- Whether a scalar may be read as of a type of the core schema. -/
def admits (s : Scalar) (type : String) : Bool :=
  match s.style with
  | .plain => true
  | .literal => s.tag = some (coreTag type)
  | _ => false

/-- The truth value that a scalar stands for. -/
def bool? (s : Scalar) : Option Bool :=
  if s.admits "bool" then boolOfText? s.text else none

/-- The unsigned integer that a scalar stands for. -/
def number? (s : Scalar) : Option Nat :=
  if s.admits "int" then numberOfText? s.text else none

/-- Whether a scalar is plain and empty. -/
def isEmpty (s : Scalar) : Bool := s.style = .plain && s.text.isEmpty

/-- Whether a scalar says that there is no value.  A tag asks for a value, unless it is the tag of
null, with which no other text is accepted. -/
def isNull? (s : Scalar) : Option Bool :=
  match s.style, s.tag with
  | .plain, none => some (s.text.isEmpty || isNullText s.text)
  | .plain, some tag =>
      if tag = coreTag "null" then if isNullText s.text then some true else none else some false
  | _, _ => some false

end Scalar

end ProgramSlice.Yaml
