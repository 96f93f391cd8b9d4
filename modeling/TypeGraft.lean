import TypeGraft.CommandLine.Arguments
import TypeGraft.CommandLine.Run
import TypeGraft.Config
import TypeGraft.Engine.Dialogue
import TypeGraft.Engine.Error
import TypeGraft.Engine.Locate
import TypeGraft.Engine.Record
import TypeGraft.Engine.Script
import TypeGraft.Engine.Session
import TypeGraft.Engine.Settings
import TypeGraft.Engine.Snapshot
import TypeGraft.Files.Path
import TypeGraft.Files.Table
import TypeGraft.FlowType.Basic
import TypeGraft.FlowType.Dialect
import TypeGraft.FlowType.Encoding
import TypeGraft.FlowType.Grammar
import TypeGraft.FlowType.Parser
import TypeGraft.FlowType.Printer
import TypeGraft.Json.Basic
import TypeGraft.Json.Reader
import TypeGraft.Json.Record
import TypeGraft.Json.Writer
import TypeGraft.Main
import TypeGraft.Merge.Collect
import TypeGraft.Merge.Eligibility
import TypeGraft.Merge.Error
import TypeGraft.Merge.Event
import TypeGraft.Merge.PositionIndex
import TypeGraft.Merge.Resolve
import TypeGraft.Merge.Run
import TypeGraft.Numeral.Binary64
import TypeGraft.Numeral.Shortest
import TypeGraft.Peg.Basic
import TypeGraft.Peg.Run
import TypeGraft.Proofs.Engine.Decoders
import TypeGraft.Proofs.Engine.Dialogue
import TypeGraft.Proofs.Engine.Snapshot
import TypeGraft.Proofs.Fallible
import TypeGraft.Proofs.FlowType.ClassHeader
import TypeGraft.Proofs.FlowType.Distinguished
import TypeGraft.Proofs.FlowType.Encoded
import TypeGraft.Proofs.FlowType.Fragment
import TypeGraft.Proofs.FlowType.Lexical
import TypeGraft.Proofs.FlowType.Object
import TypeGraft.Proofs.FlowType.Occurrence
import TypeGraft.Proofs.FlowType.Primary
import TypeGraft.Proofs.FlowType.Printed
import TypeGraft.Proofs.FlowType.Quoted
import TypeGraft.Proofs.FlowType.Rejected
import TypeGraft.Proofs.FlowType.RoundTrip
import TypeGraft.Proofs.FlowType.Shape
import TypeGraft.Proofs.FlowType.Signature
import TypeGraft.Proofs.FlowType.Spacing
import TypeGraft.Proofs.FlowType.Trailing
import TypeGraft.Proofs.Json.Keys
import TypeGraft.Proofs.Json.Numerals
import TypeGraft.Proofs.Json.Proper
import TypeGraft.Proofs.Json.RoundTrip
import TypeGraft.Proofs.Merge.Accounting
import TypeGraft.Proofs.Merge.ClosedForm
import TypeGraft.Proofs.Merge.Counters
import TypeGraft.Proofs.Merge.FactTypes
import TypeGraft.Proofs.Merge.Findings
import TypeGraft.Proofs.Merge.FlatIndex
import TypeGraft.Proofs.Merge.Frame
import TypeGraft.Proofs.Merge.IndexedSpans
import TypeGraft.Proofs.Merge.Isolation
import TypeGraft.Proofs.Merge.Passes
import TypeGraft.Proofs.Merge.Questions
import TypeGraft.Proofs.Merge.Readings
import TypeGraft.Proofs.Merge.Records
import TypeGraft.Proofs.Merge.Reread
import TypeGraft.Proofs.Merge.Scrubbed
import TypeGraft.Proofs.Merge.Sources
import TypeGraft.Proofs.Merge.Strategies
import TypeGraft.Proofs.Peg.Failing
import TypeGraft.Proofs.Peg.Guarded
import TypeGraft.Proofs.Peg.Memory
import TypeGraft.Proofs.Peg.Reading
import TypeGraft.Proofs.Peg.Related
import TypeGraft.Proofs.Tree.Ancestry
import TypeGraft.Proofs.Tree.Built
import TypeGraft.Proofs.Tree.Imported
import TypeGraft.Proofs.Tree.Located
import TypeGraft.Proofs.Tree.Nesting
import TypeGraft.Proofs.Tree.NodeMap
import TypeGraft.Proofs.Tree.Order
import TypeGraft.Proofs.Tree.RoundTrip
import TypeGraft.Proofs.Tree.Traversal
import TypeGraft.Proofs.Tree.Unnoticed
import TypeGraft.Proofs.Tree.Views
import TypeGraft.Source.Fact
import TypeGraft.Source.Position
import TypeGraft.Toml.Document
import TypeGraft.Toml.Grammar
import TypeGraft.Toml.Table
import TypeGraft.Tree.Basic
import TypeGraft.Tree.Builder
import TypeGraft.Tree.Export
import TypeGraft.Tree.Import
import TypeGraft.Tree.Kind
