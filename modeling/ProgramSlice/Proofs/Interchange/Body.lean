import ProgramSlice.Build.Pass
import ProgramSlice.Proofs.Interchange.Lawful

/-!
# Reading back a body

A body is read back from its written form whatever it holds: recorded handles need not be those of
the positions, and trees may have any shape and depth.  Bodies are records of records, so most of
this is put together from the laws of the parts.  The trees are not: they nest in themselves,
directly, as parts that may be absent and as items of lists.

* A tree is read by a recursion that is bounded by the depth of its form.  What is written for a
  tree lies strictly within what is written for the tree around it, so the bound that a value gives
  for itself is enough at every place (`Expression.readWithin_write`).
* An absent tree is written as null.  That this cannot be mistaken for a tree rests on the form of
  trees: each is written as a variant, the null literal too (`Expression.write_ne_null`).
-/

namespace ProgramSlice

open Json (record? record?_object content? content?_object variant optional required get
  getOptional_toJson)
open LawfulForm (ofJson?_toJson)

/-! ## Symbols -/

instance : LawfulForm SymbolKind where
  ofJson?_toJson := by
    intro origin k
    cases k with
    | localVariable => rfl
    | parameter => rfl
    | field => rfl

instance : LawfulForm Symbol where
  ofJson?_toJson := by
    intro origin s
    have hfields : record? ["id", "name", "kind"] (toJson s)
        = some [some (toJson s.id), some (toJson s.name), some (toJson s.kind)] :=
      record?_object rfl (by decide)
    simp only [ofJson?, hfields]
    simp

instance : LawfulForm SymbolTable where
  ofJson?_toJson := by
    intro origin t
    have hfields : record? ["symbols"] (toJson t) = some [some (toJson t.symbols)] :=
      record?_object rfl (by decide)
    simp only [ofJson?, hfields]
    simp

/-! ## Trees -/

instance : LawfulForm Literal where
  ofJson?_toJson := by
    intro origin l
    cases l with
    | int value =>
        show (ofJson? origin (toJson value)).map Literal.int = some (.int value)
        rw [ofJson?_toJson, Option.map_some]
    | bool value => rfl
    | str value => rfl
    | null => rfl

instance : LawfulForm BinaryOperator where
  ofJson?_toJson := by
    intro origin op
    cases op <;> rfl

instance : LawfulForm UnaryOperator where
  ofJson?_toJson := by
    intro origin op
    cases op <;> rfl

namespace Json

@[simp] theorem depth_variant (name : String) (content : Json) :
    (variant name content).depth = content.depth + 1 := by
  simp [variant, depth, depthFields]

@[simp] theorem depth_object (fields : List (String × Json)) :
    (Json.object fields).depth = depthFields fields + 1 := by
  rw [depth]

@[simp] theorem depth_array (items : List Json) :
    (Json.array items).depth = depthItems items + 1 := by
  rw [depth]

end Json

namespace Expression

/-- **Every tree is written as a variant,** under the name of its shape. -/
theorem exists_write_eq (e : Expression) : ∃ content, e.write = variant e.formName content := by
  cases e <;> exact ⟨_, by rw [write]; rfl⟩

theorem write_ne_null (e : Expression) : e.write ≠ .null := by
  obtain ⟨content, hwrite⟩ := e.exists_write_eq
  intro hnull
  rw [hwrite] at hnull
  cases hnull

theorem writeOption_eq_null_iff {o : Option Expression} : writeOption o = .null ↔ o = none := by
  cases o with
  | none => simp [writeOption]
  | some e => simp [writeOption, e.write_ne_null]

theorem depth_write_pos (e : Expression) : 0 < e.write.depth := by
  obtain ⟨content, hwrite⟩ := e.exists_write_eq
  rw [hwrite, Json.depth_variant]
  exact Nat.succ_pos _

variable {origin : Json.Origin}

mutual

/-- **A tree is read back** within any depth that its form has room in. -/
theorem readWithin_write : ∀ (e : Expression) (n : Nat), e.write.depth ≤ n →
    readWithin origin n e.write = some e
  | e, 0, h => absurd h (Nat.not_le_of_lt e.depth_write_pos)
  | .literal value, n + 1, _ => by
      show (ofJson? origin (toJson value)).map literal = some (.literal value)
      rw [ofJson?_toJson, Option.map_some]
  | .localRef s, n + 1, _ => by
      show (ofJson? origin (toJson s)).map localRef = some (.localRef s)
      rw [ofJson?_toJson, Option.map_some]
  | .parameterRef s, n + 1, _ => by
      show (ofJson? origin (toJson s)).map parameterRef = some (.parameterRef s)
      rw [ofJson?_toJson, Option.map_some]
  | .fieldRef owner field, n + 1, h => by
      simp only [write, Json.depth_variant, Json.depth_object, Json.depthFields] at h
      have howner := readOption_writeOption owner n (by omega)
      have hfields : content? origin ["instance", "field"]
            (.object [("instance", writeOption owner), ("field", toJson field)])
          = some [some (writeOption owner), some (toJson field)] :=
        content?_object origin rfl (by decide)
      simp only [write, readWithin, variant, Json.variant?, hfields, howner]
      simp
  | .binary op left right, n + 1, h => by
      simp only [write, Json.depth_variant, Json.depth_object, Json.depthFields] at h
      have hleft := readWithin_write left n (by omega)
      have hright := readWithin_write right n (by omega)
      have hfields : content? origin ["op", "left", "right"]
            (.object [("op", toJson op), ("left", left.write), ("right", right.write)])
          = some [some (toJson op), some left.write, some right.write] :=
        content?_object origin rfl (by decide)
      simp only [write, readWithin, variant, Json.variant?, hfields, required, hleft, hright]
      simp
  | .unary op operand, n + 1, h => by
      simp only [write, Json.depth_variant, Json.depth_object, Json.depthFields] at h
      have hoperand := readWithin_write operand n (by omega)
      have hfields : content? origin ["op", "operand"]
            (.object [("op", toJson op), ("operand", operand.write)])
          = some [some (toJson op), some operand.write] :=
        content?_object origin rfl (by decide)
      simp only [write, readWithin, variant, Json.variant?, hfields, required, hoperand]
      simp
  | .invocation method receiver arguments, n + 1, h => by
      simp only [write, Json.depth_variant, Json.depth_object, Json.depth_array,
        Json.depthFields] at h
      have hreceiver := readOption_writeOption receiver n (by omega)
      have harguments := mapM_writeList arguments n (by omega)
      have hfields : content? origin ["method", "receiver", "arguments"]
            (.object [("method", toJson method), ("receiver", writeOption receiver),
              ("arguments", .array (writeList arguments))])
          = some [some (toJson method), some (writeOption receiver),
              some (.array (writeList arguments))] :=
        content?_object origin rfl (by decide)
      simp only [write, readWithin, variant, Json.variant?, hfields, required, readList, hreceiver,
        harguments]
      simp
  | .elementAccess collection index, n + 1, h => by
      simp only [write, Json.depth_variant, Json.depth_object, Json.depthFields] at h
      have hcollection := readWithin_write collection n (by omega)
      have hindex := readWithin_write index n (by omega)
      have hfields : content? origin ["collection", "index"]
            (.object [("collection", collection.write), ("index", index.write)])
          = some [some collection.write, some index.write] :=
        content?_object origin rfl (by decide)
      simp only [write, readWithin, variant, Json.variant?, hfields, required, hcollection, hindex]
      simp

theorem readOption_writeOption : ∀ (o : Option Expression) (n : Nat), (writeOption o).depth ≤ n →
    optional (readWithin origin n) (some (writeOption o)) = some o
  | none, _, _ => rfl
  | some e, n, h => by
      rw [writeOption, Json.optional_some e.write_ne_null, readWithin_write e n h, Option.map_some]

theorem mapM_writeList : ∀ (l : List Expression) (n : Nat), Json.depthItems (writeList l) ≤ n →
    (writeList l).mapM (readWithin origin n) = some l
  | [], _, _ => rfl
  | e :: rest, n, h => by
      rw [writeList, Json.depthItems] at h
      rw [writeList, List.mapM_cons, readWithin_write e n (by omega),
        mapM_writeList rest n (by omega)]
      rfl

end

end Expression

instance : LawfulForm Expression where
  ofJson?_toJson := by
    intro origin e
    exact e.readWithin_write _ le_rfl

/-! ## Operations -/

instance : LawfulForm Span where
  ofJson?_toJson := by
    intro origin s
    have hfields : record? ["start_line", "start_col", "end_line", "end_col"] (toJson s)
        = some [some (toJson s.startLine), some (toJson s.startColumn), some (toJson s.endLine),
            some (toJson s.endColumn)] := record?_object rfl (by decide)
    simp only [ofJson?, hfields]
    simp

instance : LawfulForm Action where
  ofJson?_toJson := by
    intro origin a
    cases a with
    | assign target value =>
        have hfields : content? origin ["target", "value"]
              (.object [("target", toJson target), ("value", toJson value)])
            = some [some (toJson target), some (toJson value)] :=
          content?_object origin rfl (by decide)
        show (match content? origin ["target", "value"] _ with
          | some [target, value] => do
              some (Action.assign (← get origin target) (← get origin value))
          | _ => none) = _
        rw [hfields]
        simp
    | declare symbol initializer =>
        have hfields : content? origin ["symbol", "initializer"]
              (.object [("symbol", toJson symbol), ("initializer", toJson initializer)])
            = some [some (toJson symbol), some (toJson initializer)] :=
          content?_object origin rfl (by decide)
        show (match content? origin ["symbol", "initializer"] _ with
          | some [symbol, initializer] => do
              some (Action.declare (← get origin symbol) (← get origin initializer))
          | _ => none) = _
        rw [hfields]
        simp
    | bindParameter parameter value =>
        have hfields : content? origin ["parameter", "value"]
              (.object [("parameter", toJson parameter), ("value", toJson value)])
            = some [some (toJson parameter), some (toJson value)] :=
          content?_object origin rfl (by decide)
        show (match content? origin ["parameter", "value"] _ with
          | some [parameter, value] => do
              some (Action.bindParameter (← get origin parameter) (← get origin value))
          | _ => none) = _
        rw [hfields]
        simp
    | evaluate e =>
        show (ofJson? origin (toJson e)).map Action.evaluate = some (.evaluate e)
        rw [ofJson?_toJson, Option.map_some]

instance : LawfulForm Operation where
  ofJson?_toJson := by
    intro origin o
    have hfields : record? ["id", "kind", "syntax", "span"] (toJson o)
        = some [some (toJson o.id), some (toJson o.action), some (toJson o.text),
            some (toJson o.span)] := record?_object rfl (by decide)
    -- neither a text nor a span is ever written as null
    have htext := getOptional_toJson (fun text : String => Json.noConfusion) origin o.text
    have hspan := getOptional_toJson (fun span : Span => Json.noConfusion) origin o.span
    simp only [ofJson?, hfields]
    simp [htext, hspan]

instance : LawfulForm OperationStore where
  ofJson?_toJson := by
    intro origin s
    have hfields : record? ["operations"] (toJson s) = some [some (toJson s.operations)] :=
      record?_object rfl (by decide)
    simp only [ofJson?, hfields]
    simp

/-! ## Blocks and bodies -/

instance : LawfulForm BasicBlock where
  ofJson?_toJson := by
    intro origin b
    have hfields : record? ["ordinal", "operations"] (toJson b)
        = some [some (toJson b.ordinal), some (toJson b.operations)] :=
      record?_object rfl (by decide)
    simp only [ofJson?, hfields]
    simp

instance : LawfulForm BlockLayout where
  ofJson?_toJson := by
    intro origin l
    have hfields : record? ["blocks"] (toJson l) = some [some (toJson l.blocks)] :=
      record?_object rfl (by decide)
    simp only [ofJson?, hfields]
    simp

instance : LawfulForm ProcedureBody where
  ofJson?_toJson := by
    intro origin b
    have hfields : record? ["name", "symbols", "operations", "cfg"] (toJson b)
        = some [some (toJson b.name), some (toJson b.symbols), some (toJson b.store),
            some (toJson b.layout)] := record?_object rfl (by decide)
    simp only [ofJson?, hfields]
    simp

/-- **A body is read back from its written form.**  The form may come from a text or from memory.
Bodies that are written alike are the same body, and what a build reports of a body, it reports of
the body that is read back.  In the form of a body every tree is a variant under the name of its
shape, and null stands where a tree is absent and nowhere else. -/
theorem body_read_back :
    (∀ (origin : Json.Origin) (body : ProcedureBody), ofJson? origin (toJson body) = some body) ∧
    Function.Injective (toJson : ProcedureBody → Json) ∧
    (∀ (origin : Json.Origin) (s : BuildSettings) (body : ProcedureBody),
      (ofJson? origin (toJson body)).map (buildWithTrace s) = some (buildWithTrace s body)) ∧
    (∀ e : Expression, ∃ content, toJson e = variant e.formName content) ∧
    (∀ o : Option Expression, Expression.writeOption o = .null ↔ o = none) := by
  refine ⟨ofJson?_toJson, ?_, ?_, Expression.exists_write_eq, ?_⟩
  · intro body body' hwritten
    have hread : ofJson? .text (toJson body) = some body' := by
      rw [hwritten, ofJson?_toJson]
    rw [ofJson?_toJson] at hread
    exact Option.some.inj hread
  · intro origin s body
    rw [ofJson?_toJson, Option.map_some]
  · intro o
    exact Expression.writeOption_eq_null_iff

end ProgramSlice
