import ProgramSlice.Yaml.Node
import ProgramSlice.Yaml.Token.Lexer

/-!
# Nodes from tokens

`Node.ofTokens?` is the grammar of a text that holds at most one document.  A node may have an
anchor and a tag before it, and one that has either may be left out, as may keys and values; a node
that is left out is an empty plain scalar.
-/

namespace ProgramSlice.Yaml

namespace Grammar

/-! ## Anchors and tags -/

/-- The names of anchors that are in use, with their numbers.  The number of an anchor is how many
names are in use when it is set. -/
abbrev Anchors := List (String × Nat)

/-- Set an anchor. -/
def Anchors.set (anchors : Anchors) (name : String) : Anchors :=
  (name, anchors.length) :: anchors.filter (·.1 ≠ name)

/-- What the handles of tags stand for. -/
abbrev Handles := List (String × String)

/-- What handles stand for unless a directive says otherwise. -/
def Handles.default : Handles := [("!", "!"), ("!!", coreTag "")]

/-- The tag that a handle and a rest stand for, if the handle is known. -/
def Handles.expand? (handles : Handles) (handle rest : String) : Option String :=
  if handle = "" then some rest else (handles.lookup handle).map (· ++ rest)

/-- The tokens that are left, and the anchors that have been set. -/
structure Progress where
  /-- The tokens that are left. -/
  tokens : List Token
  /-- The anchors that have been set. -/
  anchors : Anchors := []

/-- Go on with other tokens. -/
def Progress.goOn (p : Progress) (tokens : List Token) : Progress := { p with tokens }

/-- What may stand before a node. -/
structure Properties where
  /-- The number of its anchor. -/
  anchor : Option Nat := none
  /-- Its tag. -/
  tag : Option String := none

/-- Whether a node has neither anchor nor tag. -/
def Properties.isEmpty (props : Properties) : Bool := props.anchor.isNone && props.tag.isNone

/-- Set the anchor of a node. -/
def setAnchor (name : String) (props : Properties) (p : Progress) : Properties × Progress :=
  ({ props with anchor := some p.anchors.length }, { p with anchors := p.anchors.set name })

/-- Read an anchor and a tag in either order, each of which may be missing. -/
def readProperties? (handles : Handles) (p : Progress) : Option (Properties × Progress) :=
  match p.tokens with
  | .anchor name :: .tag handle rest :: tokens =>
      (handles.expand? handle rest).map fun tag =>
        setAnchor name { tag := some tag } (p.goOn tokens)
  | .tag handle rest :: .anchor name :: tokens =>
      (handles.expand? handle rest).map fun tag =>
        setAnchor name { tag := some tag } (p.goOn tokens)
  | .anchor name :: tokens => some (setAnchor name {} (p.goOn tokens))
  | .tag handle rest :: tokens =>
      (handles.expand? handle rest).map fun tag => ({ tag := some tag }, p.goOn tokens)
  | _ => some ({}, p)

/-- A scalar with the properties that stand before it. -/
def scalarOf (props : Properties) (style : ScalarStyle) (text : String) : Node :=
  .scalar props.anchor ⟨props.tag, style, text⟩

/-- A node that is left out. -/
def missing : Node := .scalar none {}

/-! ## Nodes -/

/-- Where a node stands. -/
inductive Place where
  /-- In a flow collection. -/
  | flow
  /-- In a block sequence, or in none. -/
  | block
  /-- In a block mapping, where a sequence need not be indented. -/
  | blockMapping
deriving DecidableEq

/-- A node as a function of what it is read from. -/
abbrev NodeReader := Progress → Option (Node × Progress)

/-- Read a node, or find it left out before one of these tokens. -/
def orMissing (ends : List Token) (read : NodeReader) : NodeReader := fun p =>
  match p.tokens with
  | t :: _ => if t ∈ ends then some (missing, p) else read p
  | [] => read p

/-- Read the value of a key, which may be left out with or without its sign. -/
def readValue? (ends : List Token) (read : NodeReader) : NodeReader := fun p =>
  match p.tokens with
  | .value :: tokens => orMissing ends read (p.goOn tokens)
  | _ => some (missing, p)

/-- Read the key of a single pair in a flow sequence.  If it is left out, the sign behind it goes
with it. -/
def readSingleKey? (read : NodeReader) : NodeReader := fun p =>
  match p.tokens with
  | t :: tokens =>
      if t ∈ [Token.value, .flowEntry, .flowSequenceEnd] then some (missing, p.goOn tokens)
      else read p
  | [] => none

/-- Read a single pair in a flow sequence behind its sign. -/
def readSinglePair? (read : NodeReader) : NodeReader := fun p =>
  (readSingleKey? read p).bind fun (key, p) =>
    (readValue? [.flowEntry, .flowSequenceEnd] read p).map fun (value, p) =>
      (.mapping none [(key, value)], p)

/-- Read an item of a flow sequence. -/
def readFlowItem? (read : NodeReader) : NodeReader := fun p =>
  match p.tokens with
  | .key :: tokens => readSinglePair? read (p.goOn tokens)
  | _ => read p

/-- Read an entry of a flow mapping: a key with its sign and a value, or a key alone. -/
def readFlowPair? (read : NodeReader) (p : Progress) : Option ((Node × Node) × Progress) :=
  match p.tokens with
  | .key :: tokens =>
      (orMissing [.value, .flowEntry, .flowMappingEnd] read (p.goOn tokens)).bind fun (key, p) =>
        (readValue? [.flowEntry, .flowMappingEnd] read p).map fun (value, p) => ((key, value), p)
  | _ => (read p).map fun (key, p) => ((key, missing), p)

/-- Read an entry of a block mapping behind the sign of its key. -/
def readBlockPair? (read : NodeReader) (p : Progress) : Option ((Node × Node) × Progress) :=
  (orMissing [.key, .value, .blockEnd] read p).bind fun (key, p) =>
    (readValue? [.key, .value, .blockEnd] read p).map fun (value, p) => ((key, value), p)

mutual

/-- Read a node.  `fuel` bounds the calls and never runs out if it is at least three times the
number of tokens. -/
def readNode? (handles : Handles) (fuel : Nat) (place : Place) : NodeReader := fun p =>
  match fuel with
  | 0 => none
  | fuel + 1 =>
      match p.tokens with
      | .reference name :: tokens =>
          (p.anchors.lookup name).map fun anchor => (.reference anchor, p.goOn tokens)
      | _ =>
          match readProperties? handles p with
          | none => none
          | some (props, p) =>
              match p.tokens, place with
              | .scalar style text :: tokens, _ => some (scalarOf props style text, p.goOn tokens)
              | .flowSequenceStart :: tokens, _ =>
                  (readFlowItems? handles fuel (p.goOn tokens)).map fun (items, p) =>
                    (.sequence props.anchor items, p)
              | .flowMappingStart :: tokens, _ =>
                  (readFlowEntries? handles fuel (p.goOn tokens)).map fun (entries, p) =>
                    (.mapping props.anchor entries, p)
              | .blockEntry :: _, .blockMapping =>
                  (readIndentless? handles fuel p).map fun (items, p) =>
                    (.sequence props.anchor items, p)
              | .blockSequenceStart :: tokens, .block
              | .blockSequenceStart :: tokens, .blockMapping =>
                  (readBlockItems? handles fuel (p.goOn tokens)).map fun (items, p) =>
                    (.sequence props.anchor items, p)
              | .blockMappingStart :: tokens, .block
              | .blockMappingStart :: tokens, .blockMapping =>
                  (readBlockEntries? handles fuel (p.goOn tokens)).map fun (entries, p) =>
                    (.mapping props.anchor entries, p)
              | _, _ =>
                  if props.isEmpty then none else some (scalarOf props .plain "", p)

/-- Read the items of a block sequence up to and with its end. -/
def readBlockItems? (handles : Handles) (fuel : Nat) (p : Progress) :
    Option (List Node × Progress) :=
  match fuel with
  | 0 => none
  | fuel + 1 =>
      match p.tokens with
      | .blockEntry :: tokens =>
          (orMissing [.blockEntry, .blockEnd] (readNode? handles fuel .block) (p.goOn tokens)).bind
            fun (item, p) =>
              (readBlockItems? handles fuel p).map fun (items, p) => (item :: items, p)
      | .blockEnd :: tokens => some ([], p.goOn tokens)
      | _ => none

/-- Read the items of a block sequence that is not indented: it ends where no item begins. -/
def readIndentless? (handles : Handles) (fuel : Nat) (p : Progress) :
    Option (List Node × Progress) :=
  match fuel with
  | 0 => none
  | fuel + 1 =>
      match p.tokens with
      | .blockEntry :: tokens =>
          (orMissing [.blockEntry, .key, .value, .blockEnd] (readNode? handles fuel .block)
            (p.goOn tokens)).bind fun (item, p) =>
              (readIndentless? handles fuel p).map fun (items, p) => (item :: items, p)
      | _ => some ([], p)

/-- Read the entries of a block mapping up to and with its end. -/
def readBlockEntries? (handles : Handles) (fuel : Nat) (p : Progress) :
    Option (List (Node × Node) × Progress) :=
  match fuel with
  | 0 => none
  | fuel + 1 =>
      match p.tokens with
      | .key :: tokens =>
          (readBlockPair? (readNode? handles fuel .blockMapping) (p.goOn tokens)).bind
            fun (entry, p) =>
              (readBlockEntries? handles fuel p).map fun (entries, p) => (entry :: entries, p)
      | .blockEnd :: tokens => some ([], p.goOn tokens)
      | _ => none

/-- Read the items of a flow sequence up to and with its end. -/
def readFlowItems? (handles : Handles) (fuel : Nat) (p : Progress) :
    Option (List Node × Progress) :=
  match fuel with
  | 0 => none
  | fuel + 1 =>
      match p.tokens with
      | .flowSequenceEnd :: tokens => some ([], p.goOn tokens)
      | _ =>
          (readFlowItem? (readNode? handles fuel .flow) p).bind fun (item, p) =>
            match p.tokens with
            | .flowEntry :: tokens =>
                (readFlowItems? handles fuel (p.goOn tokens)).map fun (items, p) =>
                  (item :: items, p)
            | .flowSequenceEnd :: tokens => some ([item], p.goOn tokens)
            | _ => none

/-- Read the entries of a flow mapping up to and with its end. -/
def readFlowEntries? (handles : Handles) (fuel : Nat) (p : Progress) :
    Option (List (Node × Node) × Progress) :=
  match fuel with
  | 0 => none
  | fuel + 1 =>
      match p.tokens with
      | .flowMappingEnd :: tokens => some ([], p.goOn tokens)
      | _ =>
          (readFlowPair? (readNode? handles fuel .flow) p).bind fun (entry, p) =>
            match p.tokens with
            | .flowEntry :: tokens =>
                (readFlowEntries? handles fuel (p.goOn tokens)).map fun (entries, p) =>
                  (entry :: entries, p)
            | .flowMappingEnd :: tokens => some ([entry], p.goOn tokens)
            | _ => none

end

/-! ## Documents -/

/-- Whether directives state a version that is known, and none twice. -/
def acceptsVersions (directives : List Token) : Bool :=
  match directives.filterMap fun
    | .versionDirective major minor => some (major, minor)
    | _ => none with
  | [] => true
  | [version] => version = (1, 1) || version = (1, 2)
  | _ => false

/-- The handles that directives explain, none of them twice. -/
def handlesOf? (directives : List Token) : Option Handles :=
  let handles := directives.filterMap fun
    | .tagDirective handle expansion => some (handle, expansion)
    | _ => none
  if (handles.map (·.1)).Nodup then some (handles ++ Handles.default) else none

/-- Whether what follows the sign of a document begins with a token that leaves it empty. -/
def leavesEmpty : List Token → Bool
  | [] => true
  | t :: _ => t.isDirective || t = .documentStart || t = .documentEnd

/-- Read the node of a document, and the tokens behind it. -/
def readRoot? (handles : Handles) (tokens : List Token) : Option (Node × List Token) :=
  (readNode? handles (3 * tokens.length + 3) .block { tokens }).map fun (node, p) =>
    (node, p.tokens)

/-- Read a document with its directives and signs, and the tokens behind it. -/
def readDocument? (tokens : List Token) : Option (Node × List Token) :=
  let directives := tokens.takeWhile Token.isDirective
  match tokens.dropWhile Token.isDirective with
  | .documentStart :: tokens =>
      if acceptsVersions directives then
        (handlesOf? directives).bind fun handles =>
          if leavesEmpty tokens then some (missing, tokens) else readRoot? handles tokens
      else none
  | tokens => if directives.isEmpty then readRoot? Handles.default tokens else none

end Grammar

/-- The node of a text, or none if there are no tokens.  There may be no second document. -/
def Node.ofTokens? (tokens : List Token) : Option (Option Node) :=
  if tokens.isEmpty then some none
  else
    match Grammar.readDocument? tokens with
    | some (node, rest) => if rest.all (· = .documentEnd) then some (some node) else none
    | none => none

/-- The node of a text, or none if nothing is written there. -/
def Node.parse? (text : String) : Option (Option Node) :=
  (Token.lex? text.toList).bind Node.ofTokens?

end ProgramSlice.Yaml
