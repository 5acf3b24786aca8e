import ProgramSlice.Handle.Set
import ProgramSlice.Json.Value

/-!
# Written forms

How a value of the library is written as a JSON value and read back.  `JsonForm` pairs the two
directions for a type.

Two shapes recur.

* A *record* is written as an object with its fields in order.  It may also be read from an array
  of the values of its fields.  In an object the order does not matter and unknown fields are
  passed over, but a known field may not be repeated.
* A *variant* without content is written as its name, one with content as an object with its name
  as the only field.  Where the content is a record, it depends on the origin of the value whether
  an array will do.
-/

namespace ProgramSlice

/-- Where a value to be read comes from. -/
inductive Json.Origin where
  /-- From a text of its own.  The content of a variant may be an array of fields. -/
  | text
  /-- From a larger value that was in memory before.  The fields of a variant have to be named. -/
  | memory
deriving DecidableEq

/-- The written form of a type. -/
class JsonForm (α : Type) where
  /-- Write a value. -/
  toJson : α → Json
  /-- Read a value; no answer if the form is none of the type's. -/
  ofJson? : Json.Origin → Json → Option α

export JsonForm (toJson ofJson?)

namespace Json

/-! ## Records -/

/-- The fields of a record and how strictly it is read. -/
structure RecordShape where
  /-- The names of the fields in order. -/
  names : List String
  /-- Whether an array may leave fields out at its end. -/
  shortArrays : Bool := false
  /-- Whether unknown fields are refused. -/
  closed : Bool := false

/-- The value of a field in an object, refusing a repeated one. -/
def fieldOnce? (fields : List (String × Json)) (name : String) : Option (Option Json) :=
  match fields.filter (·.1 = name) with
  | [] => some none
  | [field] => some (some field.2)
  | _ => none

/-- The values of the fields of a record in order, each of which may be missing. -/
def RecordShape.read (shape : RecordShape) : Json → Option (List (Option Json))
  | .object fields =>
      if shape.closed && fields.any (·.1 ∉ shape.names) then none
      else shape.names.mapM (fieldOnce? fields)
  | .array items =>
      if items.length = shape.names.length
          || shape.shortArrays && items.length < shape.names.length then
        some (items.map some ++ List.replicate (shape.names.length - items.length) none)
      else none
  | _ => none

/-- The values of the fields of a record that is read from any object or a full array. -/
def record? (names : List String) (j : Json) : Option (List (Option Json)) :=
  RecordShape.read { names } j

/-- Read a field that has to be there. -/
def required {α : Type} (read : Json → Option α) : Option Json → Option α
  | some j => read j
  | none => none

/-- Read a field that may be missing or null. -/
def optional {α : Type} (read : Json → Option α) : Option Json → Option (Option α)
  | none | some .null => some none
  | some j => (read j).map some

/-- Read a field by the form of its type, if it is there. -/
def get {α : Type} [JsonForm α] (origin : Origin) (field : Option Json) : Option α :=
  required (ofJson? origin) field

/-- Read a field that may be missing or null by the form of its type. -/
def getOptional {α : Type} [JsonForm α] (origin : Origin) (field : Option Json) :
    Option (Option α) :=
  optional (ofJson? origin) field

/-- Read a field that has a default by the form of its type. -/
def getD {α : Type} [JsonForm α] (origin : Origin) (default : α) : Option Json → Option α
  | some j => ofJson? origin j
  | none => some default

/-! ## Variants -/

/-- A variant with content. -/
def variant (name : String) (content : Json) : Json := .object [(name, content)]

/-- The name of a variant with its content, if it has any. -/
def variant? : Json → Option (String × Option Json)
  | .string name => some (name, none)
  | .object [(name, content)] => some (name, some content)
  | _ => none

/-- The values of the fields of a record that is the content of a variant. -/
def content? (origin : Origin) (names : List String) (j : Json) : Option (List (Option Json)) :=
  match origin, j with
  | .memory, .array _ => none
  | _, j => record? names j

/-- The name of a variant without content, which may also be written as an object with null. -/
def unitVariant? (j : Json) : Option String :=
  match j.variant? with
  | some (name, none) => some name
  | some (name, some .null) => some name
  | _ => none

/-- Read a variant without content by a table of names. -/
def unitForm? {α : Type} (table : List (String × α)) (j : Json) : Option α :=
  j.unitVariant?.bind fun name => table.lookup name

/-- Read a number below a bound. -/
def natBelow? (bound : Nat) : Json → Option Nat
  | .integer (.ofNat n) => if n < bound then some n else none
  | _ => none

/-- A number. -/
def ofNat (n : Nat) : Json := .integer n

end Json

/-! ## Forms of basic types -/

instance : JsonForm Bool where
  toJson := .bool
  ofJson?
    | _, .bool b => some b
    | _, _ => none

instance : JsonForm String where
  toJson := .string
  ofJson?
    | _, .string s => some s
    | _, _ => none

instance : JsonForm UInt32 where
  toJson n := .ofNat n.toNat
  ofJson? _ j := (j.natBelow? UInt32.size).map UInt32.ofNat

instance : JsonForm UInt64 where
  toJson n := .ofNat n.toNat
  ofJson? _ j := (j.natBelow? UInt64.size).map UInt64.ofNat

instance : JsonForm Int64 where
  toJson n := .integer n.toInt
  ofJson?
    | _, .integer n =>
        if Int64.minValue.toInt ≤ n && n ≤ Int64.maxValue.toInt then some (Int64.ofInt n) else none
    | _, _ => none

/-- A count is written as a number and read if it fits a word of 64 bits. -/
instance : JsonForm Nat where
  toJson := .ofNat
  ofJson? _ := Json.natBelow? UInt64.size

instance {α : Type} [JsonForm α] : JsonForm (Option α) where
  toJson
    | some a => toJson a
    | none => .null
  ofJson? origin j := Json.optional (ofJson? origin) (some j)

instance {α : Type} [JsonForm α] : JsonForm (List α) where
  toJson l := .array (l.map toJson)
  ofJson?
    | origin, .array items => items.mapM (ofJson? origin)
    | _, _ => none

/-- A set is written in ascending order and read from its members in any order. -/
instance {α : Type} [Handle α] [JsonForm α] : JsonForm (HandleSet α) where
  toJson s := toJson s.toList
  ofJson? origin j := (ofJson? origin j).map HandleSet.ofList

end ProgramSlice
