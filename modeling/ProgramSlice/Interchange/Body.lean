import ProgramSlice.Body.Procedure
import ProgramSlice.Json.Form

/-!
# The written form of procedure bodies

Handles are written as bare numbers, tables and stores as records with one field, enumerations and
trees as variants.  An absent sub-expression is written as null, and an expression that *is* the
null literal as a variant, so the two are told apart.

A tree is read by recursion on how deep its containers are nested.
-/

namespace ProgramSlice

open Json (record? content? required optional get getOptional variant)

/-! ## Symbols -/

instance : JsonForm SymbolId where
  toJson s := toJson s.index
  ofJson? origin j := (ofJson? origin j).map SymbolId.mk

instance : JsonForm SymbolKind where
  toJson
    | .localVariable => .string "Local"
    | .parameter => .string "Parameter"
    | .field => .string "Field"
  ofJson? _ := Json.unitForm?
    [("Local", .localVariable), ("Parameter", .parameter), ("Field", .field)]

instance : JsonForm Symbol where
  toJson s := .object [("id", toJson s.id), ("name", toJson s.name), ("kind", toJson s.kind)]
  ofJson? origin j :=
    match record? ["id", "name", "kind"] j with
    | some [id, name, kind] => do
        some ⟨← get origin id, ← get origin name, ← get origin kind⟩
    | _ => none

instance : JsonForm SymbolTable where
  toJson t := .object [("symbols", toJson t.symbols)]
  ofJson? origin j :=
    match record? ["symbols"] j with
    | some [symbols] => do some ⟨← get origin symbols⟩
    | _ => none

/-! ## Expressions -/

instance : JsonForm Literal where
  toJson
    | .int value => variant "Int" (toJson value)
    | .bool value => variant "Bool" (toJson value)
    | .str value => variant "Str" (toJson value)
    | .null => .string "Null"
  ofJson? origin j :=
    match j.variant? with
    | some ("Int", some content) => (ofJson? origin content).map .int
    | some ("Bool", some content) => (ofJson? origin content).map .bool
    | some ("Str", some content) => (ofJson? origin content).map .str
    | some ("Null", none) => some .null
    | some ("Null", some .null) => some .null
    | _ => none

instance : JsonForm BinaryOperator where
  toJson
    | .add => .string "Add"
    | .sub => .string "Sub"
    | .mul => .string "Mul"
    | .div => .string "Div"
    | .rem => .string "Rem"
    | .eq => .string "Eq"
    | .ne => .string "Ne"
    | .lt => .string "Lt"
    | .le => .string "Le"
    | .gt => .string "Gt"
    | .ge => .string "Ge"
    | .and => .string "And"
    | .or => .string "Or"
  ofJson? _ := Json.unitForm?
    [("Add", .add), ("Sub", .sub), ("Mul", .mul), ("Div", .div), ("Rem", .rem), ("Eq", .eq),
      ("Ne", .ne), ("Lt", .lt), ("Le", .le), ("Gt", .gt), ("Ge", .ge), ("And", .and), ("Or", .or)]

instance : JsonForm UnaryOperator where
  toJson
    | .neg => .string "Neg"
    | .not => .string "Not"
  ofJson? _ := Json.unitForm? [("Neg", .neg), ("Not", .not)]

namespace Expression

/-- The name of the variant that a tree is written as. -/
def formName : Expression → String
  | .literal _ => "Literal"
  | .localRef _ => "LocalReference"
  | .parameterRef _ => "ParameterReference"
  | .fieldRef .. => "FieldReference"
  | .binary .. => "Binary"
  | .unary .. => "Unary"
  | .invocation .. => "Invocation"
  | .elementAccess .. => "ElementAccess"

mutual

/-- Write a tree. -/
def write : Expression → Json
  | .literal value => variant "Literal" (toJson value)
  | .localRef s => variant "LocalReference" (toJson s)
  | .parameterRef s => variant "ParameterReference" (toJson s)
  | .fieldRef owner field =>
      variant "FieldReference" (.object [("instance", writeOption owner), ("field", toJson field)])
  | .binary op left right =>
      variant "Binary" (.object [("op", toJson op), ("left", write left), ("right", write right)])
  | .unary op operand =>
      variant "Unary" (.object [("op", toJson op), ("operand", write operand)])
  | .invocation method receiver arguments =>
      variant "Invocation"
        (.object [("method", toJson method), ("receiver", writeOption receiver),
          ("arguments", .array (writeList arguments))])
  | .elementAccess collection index =>
      variant "ElementAccess" (.object [("collection", write collection), ("index", write index)])

/-- Write a tree that may be absent. -/
def writeOption : Option Expression → Json
  | none => .null
  | some e => e.write

/-- Write several trees. -/
def writeList : List Expression → List Json
  | [] => []
  | e :: rest => e.write :: writeList rest

end

/-- Read the items of an array. -/
def readList (read : Json → Option Expression) : Json → Option (List Expression)
  | .array items => items.mapM read
  | _ => none

/-- Read a tree whose containers are nested at most so deep. -/
def readWithin (origin : Json.Origin) : Nat → Json → Option Expression
  | 0, _ => none
  | depth + 1, j =>
      match j.variant? with
      | some ("Literal", some content) => (ofJson? origin content).map .literal
      | some ("LocalReference", some content) => (ofJson? origin content).map .localRef
      | some ("ParameterReference", some content) => (ofJson? origin content).map .parameterRef
      | some ("FieldReference", some content) =>
          match content? origin ["instance", "field"] content with
          | some [owner, field] => do
              some (.fieldRef (← optional (readWithin origin depth) owner) (← get origin field))
          | _ => none
      | some ("Binary", some content) =>
          match content? origin ["op", "left", "right"] content with
          | some [op, left, right] => do
              some (.binary (← get origin op) (← required (readWithin origin depth) left)
                (← required (readWithin origin depth) right))
          | _ => none
      | some ("Unary", some content) =>
          match content? origin ["op", "operand"] content with
          | some [op, operand] => do
              some (.unary (← get origin op) (← required (readWithin origin depth) operand))
          | _ => none
      | some ("Invocation", some content) =>
          match content? origin ["method", "receiver", "arguments"] content with
          | some [method, receiver, arguments] => do
              some (.invocation (← get origin method)
                (← optional (readWithin origin depth) receiver)
                (← required (readList (readWithin origin depth)) arguments))
          | _ => none
      | some ("ElementAccess", some content) =>
          match content? origin ["collection", "index"] content with
          | some [collection, index] => do
              some (.elementAccess (← required (readWithin origin depth) collection)
                (← required (readWithin origin depth) index))
          | _ => none
      | _ => none

/-- Read a tree. -/
def read? (origin : Json.Origin) (j : Json) : Option Expression := readWithin origin j.depth j

end Expression

instance : JsonForm Expression where
  toJson := Expression.write
  ofJson? := Expression.read?

/-! ## Operations -/

instance : JsonForm Span where
  toJson s := .object
    [("start_line", toJson s.startLine), ("start_col", toJson s.startColumn),
      ("end_line", toJson s.endLine), ("end_col", toJson s.endColumn)]
  ofJson? origin j :=
    match record? ["start_line", "start_col", "end_line", "end_col"] j with
    | some [startLine, startColumn, endLine, endColumn] => do
        some ⟨← get origin startLine, ← get origin startColumn,
          ← get origin endLine, ← get origin endColumn⟩
    | _ => none

instance : JsonForm OperationId where
  toJson o := toJson o.index
  ofJson? origin j := (ofJson? origin j).map OperationId.mk

instance : JsonForm Action where
  toJson
    | .assign target value =>
        variant "Assignment" (.object [("target", toJson target), ("value", toJson value)])
    | .declare symbol initializer =>
        variant "VariableDeclarator"
          (.object [("symbol", toJson symbol), ("initializer", toJson initializer)])
    | .bindParameter parameter value =>
        variant "ParameterInitializer"
          (.object [("parameter", toJson parameter), ("value", toJson value)])
    | .evaluate e => variant "Other" (toJson e)
  ofJson? origin j :=
    match j.variant? with
    | some ("Assignment", some content) =>
        match content? origin ["target", "value"] content with
        | some [target, value] => do
            some (.assign (← get origin target) (← get origin value))
        | _ => none
    | some ("VariableDeclarator", some content) =>
        match content? origin ["symbol", "initializer"] content with
        | some [symbol, initializer] => do
            some (.declare (← get origin symbol) (← get origin initializer))
        | _ => none
    | some ("ParameterInitializer", some content) =>
        match content? origin ["parameter", "value"] content with
        | some [parameter, value] => do
            some (.bindParameter (← get origin parameter) (← get origin value))
        | _ => none
    | some ("Other", some content) => (ofJson? origin content).map .evaluate
    | _ => none

instance : JsonForm Operation where
  toJson o := .object
    [("id", toJson o.id), ("kind", toJson o.action), ("syntax", toJson o.text),
      ("span", toJson o.span)]
  ofJson? origin j :=
    match record? ["id", "kind", "syntax", "span"] j with
    | some [id, action, text, span] => do
        some ⟨← get origin id, ← get origin action, ← getOptional origin text,
          ← getOptional origin span⟩
    | _ => none

instance : JsonForm OperationStore where
  toJson s := .object [("operations", toJson s.operations)]
  ofJson? origin j :=
    match record? ["operations"] j with
    | some [operations] => do some ⟨← get origin operations⟩
    | _ => none

/-! ## Blocks and bodies -/

instance : JsonForm BasicBlock where
  toJson b := .object [("ordinal", toJson b.ordinal), ("operations", toJson b.operations)]
  ofJson? origin j :=
    match record? ["ordinal", "operations"] j with
    | some [ordinal, operations] => do
        some ⟨← get origin ordinal, ← get origin operations⟩
    | _ => none

instance : JsonForm BlockLayout where
  toJson l := .object [("blocks", toJson l.blocks)]
  ofJson? origin j :=
    match record? ["blocks"] j with
    | some [blocks] => do some ⟨← get origin blocks⟩
    | _ => none

instance : JsonForm ProcedureBody where
  toJson b := .object
    [("name", toJson b.name), ("symbols", toJson b.symbols), ("operations", toJson b.store),
      ("cfg", toJson b.layout)]
  ofJson? origin j :=
    match record? ["name", "symbols", "operations", "cfg"] j with
    | some [name, symbols, store, layout] => do
        some ⟨← get origin name, ← get origin symbols, ← get origin store,
          ← get origin layout⟩
    | _ => none

end ProgramSlice
