import ProgramSlice.Yaml.Scalar

/-!
# Nodes

What a YAML document consists of: scalars, sequences, mappings, and references to nodes that have an
anchor.  References stay in place, so a node may refer to one that contains it.

Anchors are numbers.  More than one node may have the same, and then the last of them in the order
of the document is meant, where a node comes before its parts.
-/

namespace ProgramSlice.Yaml

/-- A node of a document. -/
inductive Node where
  /-- A scalar. -/
  | scalar (anchor : Option Nat) (content : Scalar)
  /-- A sequence of nodes. -/
  | sequence (anchor : Option Nat) (items : List Node)
  /-- A mapping by its keys and values in the order of writing. -/
  | mapping (anchor : Option Nat) (entries : List (Node × Node))
  /-- A reference to a node with an anchor. -/
  | reference (anchor : Nat)

namespace Node

/-- The anchor of a node. -/
def anchor? : Node → Option Nat
  | scalar anchor _ => anchor
  | sequence anchor _ => anchor
  | mapping anchor _ => anchor
  | reference _ => none

/-- A node, if this is its anchor. -/
def filterAnchor (n : Nat) (node : Node) : Option Node :=
  if node.anchor? = some n then some node else none

mutual

/-- The last node with an anchor, among a node and its parts. -/
def find? (n : Nat) : Node → Option Node
  | scalar anchor content => filterAnchor n (scalar anchor content)
  | sequence anchor items =>
      (findItem? n items).or (filterAnchor n (sequence anchor items))
  | mapping anchor entries =>
      (findPair? n entries).or (filterAnchor n (mapping anchor entries))
  | reference _ => none

/-- The last node with an anchor, among the items of a sequence and their parts. -/
def findItem? (n : Nat) : List Node → Option Node
  | [] => none
  | item :: rest => (findItem? n rest).or (find? n item)

/-- The last node with an anchor, among the keys and values of a mapping and their parts. -/
def findPair? (n : Nat) : List (Node × Node) → Option Node
  | [] => none
  | (key, value) :: rest => (findPair? n rest).or ((find? n value).or (find? n key))

end

/-- What a node of a document stands for: itself, or what it refers to. -/
def resolve (root : Node) : Node → Node
  | reference anchor => (root.find? anchor).getD (reference anchor)
  | node => node

/-- The scalar that a node of a document stands for. -/
def scalar? (root node : Node) : Option Scalar :=
  match root.resolve node with
  | scalar _ content => some content
  | _ => none

end Node

end ProgramSlice.Yaml
