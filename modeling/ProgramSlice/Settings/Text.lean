import ProgramSlice.Settings.Document
import ProgramSlice.Yaml.Node.Grammar
import ProgramSlice.Yaml.Node.Record

/-!
# Settings as text

Settings are kept as a YAML document of two sections, `version` and `dependency_graph`.  `toText`
writes one and `ofText` reads one: a section that is not known is refused, while unknown settings
are passed over.
-/

namespace ProgramSlice

open Yaml (Node)
open Yaml.Node (fieldOnce? optional? withDefault?)

namespace BuildSettings

/-- The settings in a node of a document.  Those that are missing keep their defaults. -/
def ofNode? (root node : Node) : Option BuildSettings := do
  let fields ← root.fields? node
  let base : BuildSettings := {}
  let includeSequencing ← fieldOnce? fields "include_sequencing"
  let includeData ← fieldOnce? fields "include_data"
  let maxNodes ← fieldOnce? fields "max_nodes"
  some
    { includeSequencing := ← withDefault? base.includeSequencing root.bool? includeSequencing
      includeData := ← withDefault? base.includeData root.bool? includeData
      maxNodes := ← withDefault? base.maxNodes
        (fun node => (root.numberBelow? UInt64.size node).map UInt64.ofNat) maxNodes }

end BuildSettings

namespace SettingsDocument

/-- The names of the sections. -/
def sections : List String := ["version", "dependency_graph"]

/-- The document that a node is. -/
def ofNode? (root : Node) : Option SettingsDocument := do
  let fields ← root.fields? root
  if fields.any (·.1 ∉ sections) then none
  else
    let version ← fieldOnce? fields "version"
    let settings ← fieldOnce? fields "dependency_graph"
    some
      { version := ← optional? root
          (fun node => (root.numberBelow? UInt32.size node).map UInt32.ofNat) version
        settings := ← optional? root (BuildSettings.ofNode? root) settings }

/-- Read a document from a text.  A text in which nothing is written is an empty document. -/
def ofText? (text : String) : Option SettingsDocument :=
  match Node.parse? text with
  | none => none
  | some none => some {}
  | some (some root) => ofNode? root

end SettingsDocument

namespace BuildSettings

/-- The text of a document with settings. -/
def toText (s : BuildSettings) : String :=
  "version: 1\n"
    ++ "dependency_graph:\n"
    ++ "  include_sequencing: " ++ toString s.includeSequencing ++ "\n"
    ++ "  include_data: " ++ toString s.includeData ++ "\n"
    ++ "  max_nodes: " ++ toString s.maxNodes.toNat ++ "\n"

/-- Read settings from the text of a document, and check them. -/
def ofText (text : String) : Except SettingsError BuildSettings :=
  match SettingsDocument.ofText? text with
  | some document => document.load
  | none => .error .malformed

/-- Read settings from the content of a file, if there is one. -/
def ofFile (content : Option ByteArray) : Except SettingsError BuildSettings :=
  match content with
  | none => .error (.file .notFound)
  | some bytes =>
      match String.fromUTF8? bytes with
      | some text => ofText text
      | none => .error (.file .notText)

end BuildSettings

end ProgramSlice
