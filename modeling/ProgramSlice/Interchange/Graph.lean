import ProgramSlice.Graph.Census
import ProgramSlice.Graph.Record
import ProgramSlice.Interchange.Body
import ProgramSlice.Json.Reader
import ProgramSlice.Json.Writer

/-!
# The written form of dependency graphs

A graph is written as its record and read by loading one, so what is read is always a graph, also
when the record repeats itself.  `DependencyGraph.toText` gives the text of a graph over several
lines, and `DependencyGraph.ofText?` reads a graph from any text of its record.
-/

namespace ProgramSlice

open Json (record? get)

instance : JsonForm DependencyType where
  toJson
    | .sequencing => .string "Sequencing"
    | .data => .string "Data"
    | .both => .string "Both"
  ofJson? _ := Json.unitForm? [("Sequencing", .sequencing), ("Data", .data), ("Both", .both)]

instance : JsonForm Provenance where
  toJson p := .object [("dependency_type", toJson p.type), ("symbols", toJson p.symbols)]
  ofJson? origin j :=
    match record? ["dependency_type", "symbols"] j with
    | some [type, symbols] => do some ⟨← get origin type, ← get origin symbols⟩
    | _ => none

instance : JsonForm EdgeRecord where
  toJson e := .object
    [("dependent", toJson e.dependent), ("dependency", toJson e.dependency),
      ("dependency_type", toJson e.type), ("symbols", toJson e.symbols)]
  ofJson? origin j :=
    match record? ["dependent", "dependency", "dependency_type", "symbols"] j with
    | some [dependent, dependency, type, symbols] => do
        some ⟨← get origin dependent, ← get origin dependency,
          ← get origin type, ← get origin symbols⟩
    | _ => none

instance : JsonForm GraphRecord where
  toJson r := .object
    [("function_id", toJson r.functionId), ("nodes", toJson r.nodes), ("edges", toJson r.edges)]
  ofJson? origin j :=
    match record? ["function_id", "nodes", "edges"] j with
    | some [functionId, nodes, edges] => do
        some ⟨← get origin functionId, ← get origin nodes, ← get origin edges⟩
    | _ => none

instance : JsonForm DependencyGraph where
  toJson g := toJson g.toRecord
  ofJson? origin j := (ofJson? origin j).map DependencyGraph.ofRecord

instance : JsonForm Summary where
  toJson s := .object
    [("function_id", toJson s.functionId), ("node_count", toJson s.nodeCount),
      ("sequencing_edges", toJson s.sequencingEdges), ("data_edges", toJson s.dataEdges)]
  ofJson? origin j :=
    match record? ["function_id", "node_count", "sequencing_edges", "data_edges"] j with
    | some [functionId, nodeCount, sequencingEdges, dataEdges] => do
        some ⟨← get origin functionId, ← get origin nodeCount,
          ← get origin sequencingEdges, ← get origin dataEdges⟩
    | _ => none

namespace DependencyGraph

/-- The text of a graph. -/
def toText (g : DependencyGraph) : String := (toJson g).indented

/-- Read a graph from a text. -/
def ofText? (text : String) : Option DependencyGraph := (Json.parse? text).bind (ofJson? .text)

end DependencyGraph

end ProgramSlice
