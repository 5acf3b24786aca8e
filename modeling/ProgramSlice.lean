import ProgramSlice.Body.Assembler
import ProgramSlice.Body.Block
import ProgramSlice.Body.Expression
import ProgramSlice.Body.Operation
import ProgramSlice.Body.Procedure
import ProgramSlice.Body.Span
import ProgramSlice.Body.Symbol
import ProgramSlice.Build.Batch
import ProgramSlice.Build.Error
import ProgramSlice.Build.Event
import ProgramSlice.Build.Itinerary
import ProgramSlice.Build.Pass
import ProgramSlice.Graph.Basic
import ProgramSlice.Graph.Census
import ProgramSlice.Graph.Provenance
import ProgramSlice.Graph.Record
import ProgramSlice.Graph.Slice
import ProgramSlice.Handle.Basic
import ProgramSlice.Handle.Map
import ProgramSlice.Handle.Set
import ProgramSlice.Interchange.Body
import ProgramSlice.Interchange.Graph
import ProgramSlice.Interchange.Settings
import ProgramSlice.Json.Form
import ProgramSlice.Json.Reader
import ProgramSlice.Json.Value
import ProgramSlice.Json.Writer
import ProgramSlice.Proofs.Body.Assembly
import ProgramSlice.Proofs.Body.Position
import ProgramSlice.Proofs.Body.Reads
import ProgramSlice.Proofs.Body.Relabel
import ProgramSlice.Proofs.Body.Walk
import ProgramSlice.Proofs.Build.Alike
import ProgramSlice.Proofs.Build.Assembled
import ProgramSlice.Proofs.Build.Cut
import ProgramSlice.Proofs.Build.Edges
import ProgramSlice.Proofs.Build.Join
import ProgramSlice.Proofs.Build.Log
import ProgramSlice.Proofs.Build.Order
import ProgramSlice.Proofs.Build.Outcome
import ProgramSlice.Proofs.Build.Precedence
import ProgramSlice.Proofs.Build.Recall
import ProgramSlice.Proofs.Build.Recut
import ProgramSlice.Proofs.Build.Relabel
import ProgramSlice.Proofs.Build.Repeats
import ProgramSlice.Proofs.Build.Rules
import ProgramSlice.Proofs.Build.Tally
import ProgramSlice.Proofs.Build.Toggles
import ProgramSlice.Proofs.Build.Trace
import ProgramSlice.Proofs.Build.Tracking
import ProgramSlice.Proofs.Build.Visit
import ProgramSlice.Proofs.Build.Window
import ProgramSlice.Proofs.Graph.Calls
import ProgramSlice.Proofs.Graph.Coherence
import ProgramSlice.Proofs.Graph.Duality
import ProgramSlice.Proofs.Graph.Effort
import ProgramSlice.Proofs.Graph.Extension
import ProgramSlice.Proofs.Graph.Growth
import ProgramSlice.Proofs.Graph.NormalForm
import ProgramSlice.Proofs.Graph.Origin
import ProgramSlice.Proofs.Graph.Reachability
import ProgramSlice.Proofs.Graph.Reasons
import ProgramSlice.Proofs.Graph.Record
import ProgramSlice.Proofs.Graph.Registration
import ProgramSlice.Proofs.Graph.Slices
import ProgramSlice.Proofs.Graph.Views
import ProgramSlice.Proofs.Handle.Image
import ProgramSlice.Proofs.Interchange.Body
import ProgramSlice.Proofs.Interchange.Graph
import ProgramSlice.Proofs.Interchange.Lawful
import ProgramSlice.Proofs.Json.Literal
import ProgramSlice.Proofs.Json.Text
import ProgramSlice.Proofs.Settings.Overlay
import ProgramSlice.Proofs.Yaml.Line
import ProgramSlice.Proofs.Yaml.Mapping
import ProgramSlice.Proofs.Yaml.Value
import ProgramSlice.Proofs.Yaml.Word
import ProgramSlice.Settings.Basic
import ProgramSlice.Settings.Document
import ProgramSlice.Settings.Text
import ProgramSlice.Text.Blank
import ProgramSlice.Text.Hex
import ProgramSlice.Yaml.Character
import ProgramSlice.Yaml.Cursor
import ProgramSlice.Yaml.Node
import ProgramSlice.Yaml.Node.Grammar
import ProgramSlice.Yaml.Node.Record
import ProgramSlice.Yaml.Scalar
import ProgramSlice.Yaml.Text.Block
import ProgramSlice.Yaml.Text.Gap
import ProgramSlice.Yaml.Text.Plain
import ProgramSlice.Yaml.Text.Quoted
import ProgramSlice.Yaml.Token
import ProgramSlice.Yaml.Token.Lexer
import ProgramSlice.Yaml.Token.Property
