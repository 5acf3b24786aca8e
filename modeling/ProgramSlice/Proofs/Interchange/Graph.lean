import ProgramSlice.Interchange.Graph
import ProgramSlice.Proofs.Graph.Origin
import ProgramSlice.Proofs.Graph.Record
import ProgramSlice.Proofs.Interchange.Lawful
import ProgramSlice.Proofs.Json.Text

/-!
# Reading back the text of a graph

The text of a graph goes through four stages: the graph is written as a record, the record as a
value, and the value as a text over several lines, and a graph is read in the opposite order.  Each
stage undoes its counterpart.  The reader of texts gives back the value
(`Json.parse?_indented`), since no part of it is nested deeper than four containers; the record is
read from the value, since its form is lawful; and the record is loaded into the graph it was
written from, since a graph that came about by the operations on graphs is well-formed
(`WellFormed.ofRecord_toRecord`).
-/

namespace ProgramSlice

open Json (Readable record?_object)
open LawfulForm (ofJson?_toJson)

/-! ## The forms of graphs are lawful -/

instance : LawfulForm DependencyType where
  ofJson?_toJson := by
    intro origin t
    cases t with
    | sequencing => rfl
    | data => rfl
    | both => rfl

instance : LawfulForm EdgeRecord where
  ofJson?_toJson := by
    intro origin e
    show ofJson? origin (Json.object [("dependent", toJson e.dependent),
      ("dependency", toJson e.dependency), ("dependency_type", toJson e.type),
      ("symbols", toJson e.symbols)]) = some e
    simp only [ofJson?]
    rw [record?_object]
    · simp
    · rfl
    · decide

instance : LawfulForm GraphRecord where
  ofJson?_toJson := by
    intro origin r
    show ofJson? origin (Json.object [("function_id", toJson r.functionId),
      ("nodes", toJson r.nodes), ("edges", toJson r.edges)]) = some r
    simp only [ofJson?]
    rw [record?_object]
    · simp
    · rfl
    · decide

/-! ## The form of a graph has a text -/

section Readable

variable {room : Nat}

theorem readable_toJson_operation (o : OperationId) : Readable room (toJson o) := .integer _

theorem readable_toJson_symbol (s : SymbolId) : Readable room (toJson s) := .integer _

theorem readable_toJson_type (t : DependencyType) : Readable room (toJson t) := by
  cases t with
  | sequencing => exact .string _
  | data => exact .string _
  | both => exact .string _

/-- A list is written as an array, which needs room for one container more than its items. -/
theorem readable_toJson_list {α : Type} [JsonForm α] {l : List α}
    (h : ∀ a ∈ l, Readable room (toJson a)) : Readable (room + 1) (toJson l) := by
  refine .array ?_
  intro j hj
  obtain ⟨a, ha, rfl⟩ := List.mem_map.mp hj
  exact h a ha

theorem readable_toJson_edge (e : EdgeRecord) : Readable (room + 2) (toJson e) := by
  refine .object ?_
  intro field hfield
  simp only [List.mem_cons, List.not_mem_nil, or_false] at hfield
  rcases hfield with rfl | rfl | rfl | rfl
  · exact readable_toJson_operation _
  · exact readable_toJson_operation _
  · exact readable_toJson_type _
  · exact readable_toJson_list fun s _ => readable_toJson_symbol s

theorem readable_toJson_record (r : GraphRecord) : Readable (room + 4) (toJson r) := by
  refine .object ?_
  intro field hfield
  simp only [List.mem_cons, List.not_mem_nil, or_false] at hfield
  rcases hfield with rfl | rfl | rfl
  · exact .string _
  · exact readable_toJson_list fun o _ => readable_toJson_operation o
  · exact readable_toJson_list fun e _ => readable_toJson_edge e

end Readable

namespace DependencyGraph

/-- **A graph is read back from its text.**  However a graph came about and whatever its function
is called, the text that is written for it is read as a graph, and as the same graph: with the same
function, nodes and edges in the same order, each edge with the same type and symbols. -/
theorem ofText?_toText {g : DependencyGraph} (h : g.Arises) : ofText? g.toText = some g := by
  have hparse : Json.parse? g.toText = some (toJson g.toRecord) :=
    Json.parse?_indented (readable_toJson_record _)
  have hload : (ofJson? .text (toJson g.toRecord)).map ofRecord = some g := by
    rw [ofJson?_toJson, Option.map_some, h.wellFormed.ofRecord_toRecord]
  rw [ofText?, hparse]
  exact hload

/-- A graph whose function has a name of characters that a text escapes and others, with a node
that depends on itself and one without an edge. -/
def escapedName : DependencyGraph :=
  ((({ functionId := "\"\\\n\x01é" } : DependencyGraph).addNode ⟨7⟩).addDependency ⟨4294967295⟩
    ⟨4294967295⟩ (.data ⟨2⟩)).2

theorem ofText?_toText_escapedName :
    escapedName.Arises ∧ ofText? escapedName.toText = some escapedName := by
  have harises : escapedName.Arises := .addDependency (.addNode (.empty _) _) _ _ _
  exact ⟨harises, ofText?_toText harises⟩

end DependencyGraph

end ProgramSlice
