import ProgramSlice.Json.Form
import ProgramSlice.Settings.Document

/-!
# The written form of settings

Settings may leave out what they do not change, in an object as well as at the end of an array.  A
settings document accepts no field that it does not know, and is written without the settings if
it has none.
-/

namespace ProgramSlice

open Json (getOptional getD)

/-- The fields of build settings. -/
def BuildSettings.shape : Json.RecordShape where
  names := ["include_sequencing", "include_data", "max_nodes"]
  shortArrays := true

instance : JsonForm BuildSettings where
  toJson s := .object
    [("include_sequencing", toJson s.includeSequencing), ("include_data", toJson s.includeData),
      ("max_nodes", toJson s.maxNodes)]
  ofJson? origin j :=
    let base : BuildSettings := {}
    match BuildSettings.shape.read j with
    | some [includeSequencing, includeData, maxNodes] => do
        some ⟨← getD origin base.includeSequencing includeSequencing,
          ← getD origin base.includeData includeData,
          ← getD origin base.maxNodes maxNodes⟩
    | _ => none

/-- The fields of a settings document. -/
def SettingsDocument.shape : Json.RecordShape where
  names := ["version", "dependency_graph"]
  shortArrays := true
  closed := true

instance : JsonForm SettingsDocument where
  toJson d := .object
    (("version", toJson d.version) ::
      match d.settings with
      | some settings => [("dependency_graph", toJson settings)]
      | none => [])
  ofJson? origin j :=
    match SettingsDocument.shape.read j with
    | some [version, settings] => do
        some ⟨← getOptional origin version, ← getOptional origin settings⟩
    | _ => none

end ProgramSlice
