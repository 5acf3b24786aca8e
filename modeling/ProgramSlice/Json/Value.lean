/-!
# JSON values

A JSON value as far as this library tells values apart.  Integers are whole numbers written
without fraction and exponent; every other number keeps the literal it was written with, because
nothing here is read from one.  An object is the list of its fields in the order of writing, a
repeated name included, since it depends on who reads an object whether a repetition matters.

`withheld` stands for a text that follows the grammar but whose value is not kept: a string with
half of a surrogate pair, or a container below the depth that the reader allows.  Such a text may
be skipped where nobody asks for its value; no form is read from it.
-/

namespace ProgramSlice

/-- A JSON value. -/
inductive Json where
  /-- The literal `null`. -/
  | null
  /-- A truth value. -/
  | bool (value : Bool)
  /-- A number written as an integer. -/
  | integer (value : Int)
  /-- Any other number, by its literal. -/
  | decimal (literal : String)
  /-- A string. -/
  | string (value : String)
  /-- An array. -/
  | array (items : List Json)
  /-- An object with its fields in order. -/
  | object (fields : List (String × Json))
  /-- A value that was not kept. -/
  | withheld

namespace Json

mutual

/-- How deep containers are nested in a value. -/
def depth : Json → Nat
  | .array items => depthItems items + 1
  | .object fields => depthFields fields + 1
  | _ => 0

/-- How deep containers are nested in the items of an array. -/
def depthItems : List Json → Nat
  | [] => 0
  | j :: rest => max j.depth (depthItems rest)

/-- How deep containers are nested in the fields of an object. -/
def depthFields : List (String × Json) → Nat
  | [] => 0
  | (_, j) :: rest => max j.depth (depthFields rest)

end

/-- The value of a field by its name, if it is there; the first one if it is repeated. -/
def field? (j : Json) (name : String) : Option Json :=
  match j with
  | .object fields => fields.lookup name
  | _ => none

end Json

end ProgramSlice
