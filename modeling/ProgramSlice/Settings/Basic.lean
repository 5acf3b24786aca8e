/-!
# Settings of a build

Which rules a build applies and how many operations it accepts.  Settings are plain values; `check`
says whether they make sense, and if not, which of the reasons comes first.

`Section` is what parts of a settings file have in common: they can be checked and have a title.
A section that may be absent is checked only if it is there.
-/

namespace ProgramSlice

/-- Why a settings file could not be read. -/
inductive FileFailure where
  /-- There is no such file. -/
  | notFound
  /-- The content is not text. -/
  | notText
deriving DecidableEq

/-- The words of the operating system for a failure. -/
def FileFailure.message : FileFailure → String
  | .notFound => "No such file or directory (os error 2)"
  | .notText => "stream did not contain valid UTF-8"

/-- Why settings were refused. -/
inductive SettingsError where
  /-- A number is out of its range. -/
  | range (field value min max hint : String)
  /-- A settings document does not state its version. -/
  | missingVersion
  /-- A settings document states a version that is not read. -/
  | unsupportedVersion (found : UInt32) (supported : List UInt32)
  /-- Settings contradict each other. -/
  | contradiction (text : String)
  /-- The settings file could not be read. -/
  | file (failure : FileFailure)
  /-- The text is not a settings document.  Where and how it fails to be one is not recorded. -/
  | malformed
deriving DecidableEq

/-- The message of an error.  For a text that is no settings document it names the kind alone. -/
def SettingsError.message : SettingsError → String
  | .range field value min max hint =>
      "Invalid range for field '" ++ field ++ "': " ++ value ++ " not in " ++ min ++ "..=" ++ max
        ++ ". " ++ hint
  | .missingVersion =>
      "Missing 'version' field in configuration file. "
        ++ "Add 'version: 1' to the top of your YAML file."
  | .unsupportedVersion found supported =>
      "Unsupported configuration version " ++ toString found.toNat ++ ". Supported versions: "
        ++ String.intercalate ", " (supported.map fun v => toString v.toNat)
  | .contradiction text => "Validation error: " ++ text
  | .file failure => "IO error: " ++ failure.message
  | .malformed => "YAML parsing error"

/-- What a build is asked to do.  Left alone, both rules are on. -/
structure BuildSettings where
  /-- Make an operation depend on the one before it in its block. -/
  includeSequencing : Bool := true
  /-- Make a read depend on the last write of the symbol. -/
  includeData : Bool := true
  /-- The greatest number of operations of a body. -/
  maxNodes : UInt64 := 100000
deriving DecidableEq

namespace BuildSettings

/-- The greatest limit on operations that may be asked for. -/
def maxNodesLimit : UInt64 := 1000000

/-- Check settings.  The limit is looked at before the rules. -/
def check (s : BuildSettings) : Except SettingsError Unit :=
  if s.maxNodes = 0 ∨ maxNodesLimit < s.maxNodes then
    .error (.range "max_nodes" (toString s.maxNodes.toNat) "1" (toString maxNodesLimit.toNat)
      "Node limit must allow at least one operation")
  else if !s.includeSequencing && !s.includeData then
    .error (.contradiction
      "at least one of include_sequencing or include_data must be enabled")
  else .ok ()

end BuildSettings

/-- A part of a settings file. -/
class Section (α : Type) where
  /-- Check a part. -/
  check : α → Except SettingsError Unit
  /-- The title of a part. -/
  title : α → String := fun _ => "Config"

instance : Section BuildSettings where
  check := BuildSettings.check
  title _ := "DependencyGraphConfig"

/-- An absent part has nothing to be refused for. -/
instance {α : Type} [Section α] : Section (Option α) where
  check
    | some part => Section.check part
    | none => .ok ()

end ProgramSlice
