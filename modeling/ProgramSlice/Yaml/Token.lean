import ProgramSlice.Yaml.Scalar

/-!
# Tokens

The words of a YAML text.  Some are written as signs; the ends of block collections, and the
beginning of those whose first key has no sign, follow from indentation alone.
-/

namespace ProgramSlice.Yaml

/-- A word of a YAML text. -/
inductive Token where
  /-- A directive that states a version. -/
  | versionDirective (major minor : Nat)
  /-- A directive that says what a handle in tags stands for. -/
  | tagDirective (handle expansion : String)
  /-- The sign that starts a document. -/
  | documentStart
  /-- The sign that ends a document. -/
  | documentEnd
  /-- The beginning of a block sequence. -/
  | blockSequenceStart
  /-- The beginning of a block mapping. -/
  | blockMappingStart
  /-- The end of a block collection. -/
  | blockEnd
  /-- An opening square bracket. -/
  | flowSequenceStart
  /-- A closing square bracket. -/
  | flowSequenceEnd
  /-- An opening brace. -/
  | flowMappingStart
  /-- A closing brace. -/
  | flowMappingEnd
  /-- The sign before an item of a block sequence. -/
  | blockEntry
  /-- The comma in a flow collection. -/
  | flowEntry
  /-- The beginning of a key. -/
  | key
  /-- The beginning of the value of a key. -/
  | value
  /-- A reference to an anchor. -/
  | reference (name : String)
  /-- An anchor, which names the node that follows. -/
  | anchor (name : String)
  /-- A tag by its handle and the rest; without a handle the rest is the whole tag. -/
  | tag (handle rest : String)
  /-- A scalar. -/
  | scalar (style : ScalarStyle) (text : String)
deriving DecidableEq

namespace Token

/-- Whether a directive stands here. -/
def isDirective : Token → Bool
  | versionDirective _ _ => true
  | tagDirective _ _ => true
  | _ => false

end Token

end ProgramSlice.Yaml
