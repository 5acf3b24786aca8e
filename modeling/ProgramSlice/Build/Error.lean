import ProgramSlice.Body.Operation
import ProgramSlice.Settings.Basic

/-!
# Why a build fails

A well-formed body always has a graph.  What can go wrong is that a block lists an operation that
does not exist or that was listed before, that a body is larger than the settings allow, or that
the settings themselves are refused.  No partial graph is given out in any of these cases.
-/

namespace ProgramSlice

/-- Why there is no graph. -/
inductive BuildError where
  /-- A block lists an operation that the store does not hold. -/
  | unknownOperation (functionId : String) (block : UInt64) (operation : OperationId)
  /-- A block lists an operation that was listed before. -/
  | duplicateOperation (functionId : String) (block : UInt64) (operation : OperationId)
  /-- The body lists more operations than are allowed. -/
  | nodeLimitExceeded (functionId : String) (limit : UInt64)
  /-- The settings were refused. -/
  | settings (cause : SettingsError)
deriving DecidableEq

/-- The message of an error. -/
def BuildError.message : BuildError → String
  | .unknownOperation functionId block operation =>
      "Block " ++ toString block.toNat ++ " of '" ++ functionId ++ "' references unknown operation "
        ++ operation.display
  | .duplicateOperation functionId block operation =>
      "Block " ++ toString block.toNat ++ " of '" ++ functionId ++ "' repeats operation "
        ++ operation.display
  | .nodeLimitExceeded functionId limit =>
      "'" ++ functionId ++ "' exceeds the node limit of " ++ toString limit.toNat ++ " operations"
  | .settings cause => "Configuration error: " ++ cause.message

/-- Settings that a build may run with. -/
def BuildSettings.accepted (s : BuildSettings) : Except BuildError BuildSettings :=
  match s.check with
  | .ok () => .ok s
  | .error cause => .error (.settings cause)

end ProgramSlice
