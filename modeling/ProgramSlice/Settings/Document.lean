import ProgramSlice.Settings.Basic

/-!
# Settings documents

A settings document states a version and, in a section of its own, the settings.  `load` accepts
one: first the version has to be there, then it has to be one that is read, and at last the
settings are checked.  Whatever a document leaves out keeps its default.
-/

namespace ProgramSlice

/-- What a settings file says. -/
structure SettingsDocument where
  /-- The version of the layout of the file. -/
  version : Option UInt32 := none
  /-- The settings. -/
  settings : Option BuildSettings := none
deriving DecidableEq

namespace SettingsDocument

/-- The versions that are read. -/
def supportedVersions : List UInt32 := [1]

/-- The document that settings are written as. -/
def ofSettings (s : BuildSettings) : SettingsDocument := ⟨some 1, some s⟩

/-- The settings of a document, if it is accepted. -/
def load (d : SettingsDocument) : Except SettingsError BuildSettings :=
  match d.version with
  | none => .error .missingVersion
  | some version =>
      if version ∈ supportedVersions then
        let settings := d.settings.getD {}
        match settings.check with
        | .ok () => .ok settings
        | .error e => .error e
      else .error (.unsupportedVersion version supportedVersions)

end SettingsDocument

end ProgramSlice
