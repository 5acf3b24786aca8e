/-!
# The log of a build

What a build reports while it runs.  An event is a value of its kind; `level`, `message` and
`fields` say how it is shown.
-/

namespace ProgramSlice

/-- How much attention an event asks for. -/
inductive EventLevel where
  | trace | debug | info | warn
deriving DecidableEq

/-- The name of a level in a log. -/
def EventLevel.name : EventLevel → String
  | .trace => "TRACE"
  | .debug => "DEBUG"
  | .info => "INFO"
  | .warn => "WARN"

/-- A value reported with an event. -/
inductive EventValue where
  /-- A text. -/
  | text (value : String)
  /-- A count. -/
  | count (value : Nat)
deriving DecidableEq

/-- Something that happened during a build. -/
inductive Event where
  /-- A build begins. -/
  | started (function : String) (blocks : Nat)
  /-- A block is entered. -/
  | block (ordinal : UInt64) (operations : Nat)
  /-- An operation is looked at. -/
  | operation (label kind : String)
  /-- An assignment stores into a target that no symbol stands for. -/
  | unresolvedTarget (label : String)
  /-- A graph is complete. -/
  | built (function : String) (nodes edges unresolved : Nat)
  /-- Some bodies of a batch have no graph. -/
  | someFailed (failed total : Nat)
  /-- A batch is done. -/
  | batchDone (bodies complete : Nat)
deriving DecidableEq

namespace Event

/-- The level of an event. -/
def level : Event → EventLevel
  | .started .. | .block .. | .built .. => .debug
  | .operation .. | .unresolvedTarget _ => .trace
  | .someFailed .. => .warn
  | .batchDone .. => .info

/-- The message of an event. -/
def message : Event → String
  | .started .. => "building dependency graph"
  | .block .. => "block"
  | .operation .. => "operation"
  | .unresolvedTarget _ => "unresolved assignment target"
  | .built .. => "dependency graph built"
  | .someFailed .. => "some dependency graphs failed"
  | .batchDone .. => "dependency graphs built"

/-- The values reported with an event, by name. -/
def fields : Event → List (String × EventValue)
  | .started function blocks => [("function", .text function), ("blocks", .count blocks)]
  | .block ordinal operations =>
      [("block", .count ordinal.toNat), ("operations", .count operations)]
  | .operation label kind => [("operation", .text label), ("kind", .text kind)]
  | .unresolvedTarget label => [("operation", .text label)]
  | .built function nodes edges unresolved =>
      [("function", .text function), ("nodes", .count nodes), ("edges", .count edges),
        ("unresolved", .count unresolved)]
  | .someFailed failed total => [("failed", .count failed), ("total", .count total)]
  | .batchDone bodies complete => [("bodies", .count bodies), ("built", .count complete)]

end Event

end ProgramSlice
