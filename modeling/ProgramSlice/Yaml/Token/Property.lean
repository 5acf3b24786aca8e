import ProgramSlice.Text.Hex
import ProgramSlice.Yaml.Cursor
import ProgramSlice.Yaml.Token

/-!
# Anchors, tags and directives

What may stand before a node, and before a document: anchors and references to them, tags, and the
directives that state a version or explain the handles of tags.

A tag is a sequence of octets, each of which stands here as the character with its number.  A zero
octet ends a tag.
-/

namespace ProgramSlice.Yaml.Property

/-! ## Anchors -/

/-- A sign that may follow the name of an anchor directly. -/
def mayFollowAnchor (c : Char) : Bool := ['?', ':', ',', ']', '}', '%', '@', '\x60'].contains c

/-- Read the name behind the sign of an anchor or of a reference. -/
def readName? (cs : List Char) : Option (String × List Char) :=
  let name := cs.takeWhile isNameChar
  let rest := cs.dropWhile isNameChar
  if !name.isEmpty && (endsWord rest || startsWith mayFollowAnchor rest) then
    some (String.ofList name, rest)
  else none

/-! ## Tags -/

/-- A character that may stand in a tag.  A verbatim tag may also have the comma and the square
brackets in it. -/
def isTagChar (verbatim : Bool) (c : Char) : Bool :=
  isNameChar c || ";/?:@&=+$.!~*'()".toList.contains c
    || verbatim && (c = ',' || c = '[' || c = ']')

/-- How many octets a character has that begins with this one. -/
def octetsOfLead? (octet : Nat) : Option Nat :=
  if octet < 0x80 then some 1
  else if 0xC0 ≤ octet && octet < 0xE0 then some 2
  else if 0xE0 ≤ octet && octet < 0xF0 then some 3
  else if 0xF0 ≤ octet && octet < 0xF8 then some 4
  else none

/-- Read the octets of a tag.  An octet may be escaped, and `pending` counts the octets that have
to follow for the character to be complete. -/
def readOctets? (verbatim : Bool) (pending : Nat) : List Char → Option (List Char × List Char)
  | '%' :: a :: b :: rest =>
      match Text.hexNumber? [a, b] with
      | none => none
      | some octet =>
          let next := if pending = 0 then (octetsOfLead? octet).map (· - 1)
            else if 0x80 ≤ octet && octet < 0xC0 then some (pending - 1) else none
          match next with
          | none => none
          | some pending => (readOctets? verbatim pending rest).map fun (octets, rest) =>
              (Char.ofNat octet :: octets, rest)
  | c :: rest =>
      if c = '%' || pending ≠ 0 then none
      else if isTagChar verbatim c then
        (readOctets? verbatim 0 rest).map fun (octets, rest) => (c :: octets, rest)
      else some ([], c :: rest)
  | [] => if pending = 0 then some ([], []) else none

/-- The octets before the first that is zero. -/
def textOfOctets (octets : List Char) : String := String.ofList (octets.takeWhile (· ≠ '\x00'))

/-- Read the octets of a tag, of which there has to be one. -/
def readSomeOctets? (verbatim : Bool) (cs : List Char) : Option (String × List Char) :=
  match readOctets? verbatim 0 cs with
  | none => none
  | some (octets, rest) => if octets.isEmpty then none else some (textOfOctets octets, rest)

/-- Read a tag behind its sign: verbatim, with a named handle, with the handle of two signs, or
with that of one.  The sign alone is a tag without a handle. -/
def readTag? (cs : List Char) : Option (Token × List Char) :=
  match cs with
  | '<' :: cs =>
      match readSomeOctets? true cs with
      | some (text, '>' :: rest) => some (.tag "" text, rest)
      | _ => none
  | cs =>
      let name := cs.takeWhile isNameChar
      match cs.dropWhile isNameChar with
      | '!' :: rest =>
          (readSomeOctets? false rest).map fun (text, rest) =>
            (.tag (String.ofList ('!' :: name ++ ['!'])) text, rest)
      | rest =>
          (readOctets? false 0 rest).map fun (octets, rest) =>
            match textOfOctets (name ++ octets) with
            | "" => (.tag "" "!", rest)
            | text => (.tag "!" text, rest)

/-! ## Directives -/

/-- Read a number of at most nine digits. -/
def readNumber? (cs : List Char) : Option (Nat × List Char) :=
  let digits := cs.takeWhile Char.isDigit
  if !digits.isEmpty && digits.length ≤ 9 then
    some (Nat.ofDigitChars 10 digits 0, cs.dropWhile Char.isDigit)
  else none

/-- Read a version. -/
def readVersion? (cs : List Char) : Option (Token × List Char) :=
  match readNumber? cs with
  | some (major, '.' :: rest) =>
      (readNumber? rest).map fun (minor, rest) => (.versionDirective major minor, rest)
  | _ => none

/-- Read a handle: one sign, two, or a name between two. -/
def readHandle? : List Char → Option (String × List Char)
  | '!' :: cs =>
      let name := cs.takeWhile isNameChar
      match cs.dropWhile isNameChar with
      | '!' :: rest => some (String.ofList ('!' :: name ++ ['!']), rest)
      | rest => if name.isEmpty then some ("!", rest) else none
  | _ => none

/-- Read a handle and what it stands for. -/
def readExpansion? (cs : List Char) : Option (Token × List Char) :=
  match readHandle? cs with
  | none => none
  | some (handle, rest) =>
      if startsWith isBlank rest then
        match readSomeOctets? true (rest.dropWhile isBlank) with
        | some (expansion, rest) =>
            if endsWord rest then some (.tagDirective handle expansion, rest) else none
        | none => none
      else none

/-- Read a directive behind its sign, without the rest of the line. -/
def readDirective? (cs : List Char) : Option (Token × List Char) :=
  let name := cs.takeWhile isNameChar
  let rest := cs.dropWhile isNameChar
  if endsWord rest then
    if name = "YAML".toList then readVersion? (rest.dropWhile isBlank)
    else if name = "TAG".toList then readExpansion? (rest.dropWhile isBlank)
    else none
  else none

end ProgramSlice.Yaml.Property
