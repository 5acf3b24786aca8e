import ProgramSlice.Yaml.Text.Block
import ProgramSlice.Yaml.Text.Plain
import ProgramSlice.Yaml.Text.Quoted
import ProgramSlice.Yaml.Token.Property

/-!
# Reading tokens

`Token.lex?` gives the tokens of a text.  Three things are kept beside the place in the text.

**Indentation.**  The entries of a block collection begin at one column.  A token that begins left
of it ends the collection, and what belongs inside an entry begins right of it.

**Possible keys.**  A key is recognized only by the colon behind it.  So the place where one may
have begun is remembered, one for the block context and one for each open flow collection, and the
token that starts the key is put there later.  A key ends on the line it began on and after at most
1024 octets.

**Permission.**  In the block context a key without a sign may begin only on a new line or behind
the sign of an entry, a key or a value.
-/

namespace ProgramSlice.Yaml

namespace Lexer

/-- A place where a key may have begun. -/
structure KeyPlace where
  /-- The number of tokens before it. -/
  position : Nat
  /-- Where it is in the text. -/
  mark : Mark
  /-- Whether nothing but a key may stand there. -/
  required : Bool

/-- What is known in the middle of a text. -/
structure State where
  /-- The place in the text. -/
  cursor : Cursor
  /-- The tokens so far. -/
  tokens : Array Token := #[]
  /-- The columns of the entries of the open block collections, the innermost first. -/
  columns : List Nat := []
  /-- Where a key may have begun in the innermost flow collection, or else in the block. -/
  keyPlace : Option KeyPlace := none
  /-- The same for what contains that, the innermost first. -/
  outerPlaces : List (Option KeyPlace) := []
  /-- Whether a key may begin here. -/
  keyAllowed : Bool := true

namespace State

/-- Whether a flow collection is open. -/
def inFlow (s : State) : Bool := !s.outerPlaces.isEmpty

/-- The least column inside an entry of the innermost block collection. -/
def floor (s : State) : Nat :=
  match s.columns with
  | [] => 0
  | column :: _ => column + 1

/-- Put a token at the end and go on at a place. -/
def push (s : State) (t : Token) (c : Cursor) : State :=
  { s with cursor := c, tokens := s.tokens.push t }

/-- Put a token that is a sign of so many characters. -/
def pushSign (s : State) (t : Token) (length : Nat) : State := s.push t (s.cursor.forward length)

/-- Say whether a key may begin next. -/
def allowKey (s : State) (allowed : Bool) : State := { s with keyAllowed := allowed }

/-! ## Possible keys -/

/-- Give up the possible key of this level, unless it is required. -/
def dropKey? (s : State) : Option State :=
  if s.keyPlace.any (·.required) then none else some { s with keyPlace := none }

/-- Remember this place as one where a key may begin, if it may. -/
def placeKey? (s : State) : Option State :=
  if s.keyAllowed then
    s.dropKey?.map fun s => { s with
      keyPlace := some
        { position := s.tokens.size
          mark := s.cursor.mark
          required := !s.inFlow && s.columns.head? = some s.cursor.column } }
  else some s

/-- Forget a possible key that is too far away from here. -/
def expire? (here : Mark) : Option KeyPlace → Option (Option KeyPlace)
  | none => some none
  | some k =>
      if k.mark.line < here.line || k.mark.offset + 1024 < here.offset then
        if k.required then none else some none
      else some (some k)

/-- Forget the possible keys that are too far away from here. -/
def expireKeys? (s : State) : Option State :=
  match expire? s.cursor.mark s.keyPlace, s.outerPlaces.mapM (expire? s.cursor.mark) with
  | some keyPlace, some outerPlaces => some { s with keyPlace, outerPlaces }
  | _, _ => none

/-! ## Block collections -/

/-- End the innermost block collections as long as they have their entries at certain columns.
Inside a flow collection indentation does not count. -/
def closeBlocks (s : State) (ends : Nat → Bool) : State :=
  if s.inFlow then s
  else
    { s with
      tokens := s.tokens ++ ((s.columns.takeWhile ends).map fun _ => Token.blockEnd).toArray
      columns := s.columns.dropWhile ends }

/-- Open a block collection with entries at a column, if none is open that has them there.  The
token goes to a position among the others. -/
def openBlock (s : State) (start : Token) (column position : Nat) : State :=
  if s.inFlow || column < s.floor then s
  else
    { s with
      tokens := s.tokens.insertIdxIfInBounds position start
      columns := column :: s.columns }

/-- Open a block collection with entries at this column for a sign that says so. -/
def openBlockHere? (s : State) (start : Token) : Option State :=
  if s.inFlow then some s
  else if s.keyAllowed then some (s.openBlock start s.cursor.column s.tokens.size)
  else none

/-! ## Gaps -/

/-- Whether a character may stand between tokens.  In the block context no tab may stand where a key
may begin. -/
def skips (s : State) (c : Char) : Bool := c = ' ' || (s.inFlow || !s.keyAllowed) && c = '\t'

/-- Skip a byte order mark at the beginning of a line, blanks and a comment. -/
def skipBlanks (s : State) : Cursor := (s.cursor.skipMark.skipWhile s.skips).skipComment

/-- Move forward to the next token, or to the end of the text. -/
def skipGap (s : State) : State :=
  match _h : s.skipBlanks.readBreak? with
  | none => { s with cursor := s.skipBlanks }
  | some (_, c) => skipGap { s with cursor := c, keyAllowed := s.keyAllowed || !s.inFlow }
termination_by s.cursor.rest.length
decreasing_by
  have := Cursor.length_lt_of_readBreak? _h
  have := Cursor.length_skipComment_le (s.cursor.skipMark.skipWhile s.skips)
  have := Cursor.length_skipWhile_le s.cursor.skipMark s.skips
  have := Cursor.length_skipMark_le s.cursor
  simp only [skipBlanks] at *
  omega

/-! ## Tokens -/

/-- Leave all block collections, as at the end of a document. -/
def leaveBlocks? (s : State) : Option State :=
  (s.closeBlocks fun _ => true).dropKey?.map (·.allowKey false)

/-- Open a flow collection. -/
def openFlow? (s : State) (t : Token) : Option State :=
  s.placeKey?.map fun s =>
    ({ s with keyPlace := none, outerPlaces := s.keyPlace :: s.outerPlaces }.allowKey true).pushSign
      t 1

/-- Close a flow collection. -/
def closeFlow? (s : State) (t : Token) : Option State :=
  s.dropKey?.map fun s =>
    let s := match s.outerPlaces with
      | [] => s
      | place :: outerPlaces => { s with keyPlace := place, outerPlaces }
    (s.allowKey false).pushSign t 1

/-- Read the sign of an item of a block sequence. -/
def readItemSign? (s : State) : Option State :=
  (s.openBlockHere? .blockSequenceStart).bind fun s =>
    s.dropKey?.map fun s => (s.allowKey true).pushSign .blockEntry 1

/-- Read the sign of a key. -/
def readKeySign? (s : State) : Option State :=
  (s.openBlockHere? .blockMappingStart).bind fun s =>
    s.dropKey?.map fun s => (s.allowKey (!s.inFlow)).pushSign .key 1

/-- Read the sign of a value.  If a key was possible, it is one now. -/
def readValueSign? (s : State) : Option State :=
  match s.keyPlace with
  | some k =>
      let s := { s with keyPlace := none, tokens := s.tokens.insertIdxIfInBounds k.position .key }
      some (((s.openBlock .blockMappingStart k.mark.column k.position).allowKey false).pushSign
        .value 1)
  | none =>
      (s.openBlockHere? .blockMappingStart).map fun s =>
        (s.allowKey (!s.inFlow)).pushSign .value 1

/-- Read a token that may begin a key and behind which none may begin. -/
def readPart? (s : State) (read? : Cursor → Option (Token × Cursor)) : Option State :=
  s.placeKey?.bind fun s =>
    (read? s.cursor).map fun (t, c) => (s.allowKey false).push t c

/-- Read an anchor or a reference. -/
def readName? (s : State) (token : String → Token) : Option State :=
  s.readPart? fun c =>
    (Property.readName? (c.rest.drop 1)).map fun (name, rest) => (token name, c.moveTo rest)

/-- Read a tag.  A word has to end behind it, or a comma to follow in a flow collection. -/
def readTag? (s : State) : Option State :=
  s.readPart? fun c =>
    match Property.readTag? (c.rest.drop 1) with
    | none => none
    | some (t, rest) =>
        if endsWord rest || s.inFlow && startsWith (· = ',') rest then some (t, c.moveTo rest)
        else none

/-- Read a quoted scalar. -/
def readQuoted? (s : State) (q : Quoted.Quote) : Option State :=
  s.readPart? fun c =>
    (Quoted.read? q c).map fun (text, c) => (.scalar .quoted (String.ofList text), c)

/-- Read a plain scalar.  It ends with its line if that is broken behind it. -/
def readPlain? (s : State) : Option State :=
  s.placeKey?.bind fun s =>
    (Plain.read? s.inFlow s.floor s.cursor).map fun r =>
      (s.allowKey r.broken).push (.scalar .plain (String.ofList r.text)) r.cursor

/-- Read a block scalar. -/
def readBlock? (s : State) (folded : Bool) : Option State :=
  s.dropKey?.bind fun s =>
    (Block.read? folded s.floor (s.cursor.forward 1)).map fun (text, c) =>
      (s.allowKey true).push
        (.scalar (if folded then .folded else .literal) (String.ofList text)) c

/-- Read a directive. -/
def readDirective? (s : State) : Option State :=
  s.leaveBlocks?.bind fun s =>
    (Property.readDirective? (s.cursor.rest.drop 1)).bind fun (t, rest) =>
      (s.cursor.moveTo rest).skipRestOfLine?.map fun c => s.push t c

/-- Read the sign that starts or ends a document. -/
def readDocumentSign? (s : State) : Option State :=
  let t := if startsWith (· = '-') s.cursor.rest then Token.documentStart else .documentEnd
  s.leaveBlocks?.map fun s => s.pushSign t 3

/-- Whether a plain scalar may begin with a character before others. -/
def mayBeginPlain (s : State) (c : Char) (rest : List Char) : Bool :=
  if c = '-' then !startsWith isBlank rest
  else if c = '?' || c = ':' then !s.inFlow && !endsWord rest
  else !(isBlankOrBreak c || isFlowIndicator c || "#&*!|>'\"%@\x60".toList.contains c)

/-- Read the token that begins here. -/
def readToken? (s : State) : Option State :=
  match s.cursor.rest with
  | [] => none
  | c :: rest =>
      if s.cursor.column = 0 && c = '%' then s.readDirective?
      else if s.cursor.atDocumentSign then s.readDocumentSign?
      else if c = '[' then s.openFlow? .flowSequenceStart
      else if c = '{' then s.openFlow? .flowMappingStart
      else if c = ']' then s.closeFlow? .flowSequenceEnd
      else if c = '}' then s.closeFlow? .flowMappingEnd
      else if c = ',' then s.dropKey?.map fun s => (s.allowKey true).pushSign .flowEntry 1
      else if c = '-' && endsWord rest then s.readItemSign?
      else if c = '?' && (s.inFlow || endsWord rest) then s.readKeySign?
      else if c = ':' && (s.inFlow || endsWord rest) then s.readValueSign?
      else if c = '*' then s.readName? .reference
      else if c = '&' then s.readName? .anchor
      else if c = '!' then s.readTag?
      else if c = '|' && !s.inFlow then s.readBlock? false
      else if c = '>' && !s.inFlow then s.readBlock? true
      else if c = '\'' then s.readQuoted? .single
      else if c = '"' then s.readQuoted? .double
      else if s.mayBeginPlain c rest then s.readPlain?
      else none

/-- Move forward to the next token, and end what does not reach so far. -/
def advance? (s : State) : Option State :=
  s.skipGap.expireKeys?.map fun s => s.closeBlocks (s.cursor.column < ·)

end State

/-- Read the tokens from here to the end of the text. -/
def lexFrom? : (fuel : Nat) → State → Option (List Token)
  | 0, _ => none
  | fuel + 1, s =>
      match s.advance? with
      | none => none
      | some s =>
          if s.cursor.rest.isEmpty then s.leaveBlocks?.map (·.tokens.toList)
          else s.readToken?.bind (lexFrom? fuel)

end Lexer

/-- The tokens of a text, all of whose characters have to be allowed. -/
def Token.lex? (text : List Char) : Option (List Token) :=
  if text.all isAllowed then Lexer.lexFrom? (text.length + 1) { cursor := ⟨text, {}⟩ } else none

end ProgramSlice.Yaml
