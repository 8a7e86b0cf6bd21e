import ShaderVariants.Key
import ShaderVariants.Stage
import ShaderVariants.Config
import ShaderVariants.Layout
import ShaderVariants.Decimal.Shortest
import ShaderVariants.Text.Quoted
import ShaderVariants.Json.Token
import ShaderVariants.Json.Value
import ShaderVariants.Json.Reader
import ShaderVariants.Json.Schema
import ShaderVariants.Report.Document
import ShaderVariants.Tables.Document
import ShaderVariants.Resource
import ShaderVariants.Resource.Document
import ShaderVariants.Config.Document
import ShaderVariants.Normalize
import ShaderVariants.Text.Utf8
import ShaderVariants.Text.Bytes
import ShaderVariants.Duration
import ShaderVariants.Store
import ShaderVariants.Bake
import ShaderVariants.Rehearsal
import ShaderVariants.Script.Syntax
import ShaderVariants.Script.Source
import ShaderVariants.Script.Grammar
import ShaderVariants.Script.Pattern
import ShaderVariants.Script.Arithmetic
import ShaderVariants.Script.Regex
import ShaderVariants.Script.Shell
import ShaderVariants.Script.Expansion
import ShaderVariants.Script.Builtin
import ShaderVariants.Script.Program
import ShaderVariants.Script.Utility.Options
import ShaderVariants.Script.Utility.Lines
import ShaderVariants.Script.Utility.Fields
import ShaderVariants.Script.Utility.Editor
import ShaderVariants.Script.Utility.Search
import ShaderVariants.Script.Utility.Format
import ShaderVariants.Script.Utility.Condition
import ShaderVariants.Script.Utility.Files
import ShaderVariants.Script.Utility.Clock
import ShaderVariants.Script.Execution
import ShaderVariants.CommandLine
import ShaderVariants.Main
import ShaderVariants.Proofs.Word
import ShaderVariants.Proofs.Sequence
import ShaderVariants.Proofs.Table
import ShaderVariants.Proofs.Group.Choices
import ShaderVariants.Proofs.Group.Bits
import ShaderVariants.Proofs.Config.Enumeration
import ShaderVariants.Proofs.Config.Decoding
import ShaderVariants.Proofs.Config.Encoding
import ShaderVariants.Proofs.Config.Lookup
import ShaderVariants.Proofs.Config.Inverse
import ShaderVariants.Proofs.Config.Homes
import ShaderVariants.Proofs.Config.Choice
import ShaderVariants.Proofs.Key.Names
import ShaderVariants.Proofs.Path.Names
import ShaderVariants.Proofs.Store.Trail
import ShaderVariants.Proofs.Store.Footprint
import ShaderVariants.Proofs.Store.Descent
import ShaderVariants.Proofs.Store.Directory
import ShaderVariants.Proofs.Layout.Artifacts
import ShaderVariants.Proofs.Layout.Collisions
import ShaderVariants.Proofs.Bake.Steps
import ShaderVariants.Proofs.Bake.Schedule
import ShaderVariants.Proofs.Rehearsal
import ShaderVariants.Proofs.Json.Text
import ShaderVariants.Proofs.Json.Numeral
import ShaderVariants.Proofs.Json.Grammar
import ShaderVariants.Proofs.Json.Lexing
import ShaderVariants.Proofs.Json.Parsing
import ShaderVariants.Proofs.Json.Printing
import ShaderVariants.Proofs.Json.Records
import ShaderVariants.Proofs.Json.Settled
import ShaderVariants.Proofs.Json.Mismatch
import ShaderVariants.Proofs.Bake.Interleaving
import ShaderVariants.Proofs.Resource.RoundTrip
import ShaderVariants.Proofs.Report.Rows
import ShaderVariants.Proofs.Report.Overflow
import ShaderVariants.Proofs.Bake.Course
import ShaderVariants.Proofs.Store.Contents
import ShaderVariants.Proofs.Report.File
import ShaderVariants.Proofs.Bake.Variant
import ShaderVariants.Proofs.Bake.Isolation
import ShaderVariants.Proofs.Bake.Turns
import ShaderVariants.Proofs.Bake.Provenance
import ShaderVariants.Proofs.Store.Level
import ShaderVariants.Proofs.Bake.Leftovers
import ShaderVariants.Proofs.Bake.Reproduction
import ShaderVariants.Proofs.Bake.Account
import ShaderVariants.Proofs.Bake.Edits
import ShaderVariants.Proofs.Bake.Frame
import ShaderVariants.Proofs.Config.Acceptance
import ShaderVariants.Proofs.Report.Faults
import ShaderVariants.Proofs.Bake.Refusal
import ShaderVariants.Proofs.Config.Record
import ShaderVariants.Proofs.Config.Document
import ShaderVariants.Proofs.Group.Draining
import ShaderVariants.Proofs.Config.KeyFaults
import ShaderVariants.Proofs.Report.Extent
import ShaderVariants.Proofs.Report.Extension
import ShaderVariants.Proofs.Json.Fields
import ShaderVariants.Proofs.Json.Thorough
import ShaderVariants.Proofs.Tables.Layers
import ShaderVariants.Proofs.Resource.File
import ShaderVariants.Proofs.Resource.Modes
import ShaderVariants.Proofs.Report.Storing
import ShaderVariants.Proofs.Json.Edits
import ShaderVariants.Proofs.Report.Tolerance
import ShaderVariants.Proofs.Bake.Names
import ShaderVariants.Proofs.Group.Overflow
import ShaderVariants.Proofs.Config.Overflow
import ShaderVariants.Proofs.Json.Overrun
import ShaderVariants.Proofs.Report.Overrun
import ShaderVariants.Proofs.Bake.Smooth
import ShaderVariants.Proofs.CommandLine.Status
