import ProgramSlice.Yaml.Node

/-!
# Nodes as records

A record is a mapping whose keys are scalars, however they were written.  A mapping that is left out
is a record without fields.  References are followed wherever a node is looked at, and `root` is
the node of the whole document, in which they are looked up.
-/

namespace ProgramSlice.Yaml.Node

/-- The fields of a record with their names. -/
def fields? (root node : Node) : Option (List (String × Node)) :=
  match root.resolve node with
  | mapping _ entries => entries.mapM fun (key, value) =>
      (root.scalar? key).map fun name => (name.text, value)
  | scalar _ content => if content.isEmpty then some [] else none
  | _ => none

/-- The value of a field, refusing a repeated one. -/
def fieldOnce? (fields : List (String × Node)) (name : String) : Option (Option Node) :=
  match fields.filter (·.1 = name) with
  | [] => some none
  | [field] => some (some field.2)
  | _ => none

/-- Read a field that may be missing or null. -/
def optional? {α : Type} (root : Node) (read : Node → Option α) :
    Option Node → Option (Option α)
  | none => some none
  | some node =>
      match (root.scalar? node).map Scalar.isNull? with
      | some none => none
      | some (some true) => some none
      | some (some false) | none => (read node).map some

/-- Read a field that has a default. -/
def withDefault? {α : Type} (default : α) (read : Node → Option α) : Option Node → Option α
  | none => some default
  | some node => read node

/-- Read a truth value. -/
def bool? (root node : Node) : Option Bool := (root.scalar? node).bind Scalar.bool?

/-- Read a number below a bound. -/
def numberBelow? (bound : Nat) (root node : Node) : Option Nat :=
  ((root.scalar? node).bind Scalar.number?).filter (· < bound)

end ProgramSlice.Yaml.Node
