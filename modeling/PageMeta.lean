import PageMeta.AttributeMap.Basic
import PageMeta.AttributeMap.Calls
import PageMeta.Builder.Basic
import PageMeta.Builder.Build
import PageMeta.Builder.Calls
import PageMeta.Builder.Field
import PageMeta.Builder.Rules
import PageMeta.Builder.Setter
import PageMeta.CommandLine.Check
import PageMeta.CommandLine.Folder
import PageMeta.CommandLine.Options
import PageMeta.Error
import PageMeta.Heap.Basic
import PageMeta.Heap.Copy
import PageMeta.Heap.Equality
import PageMeta.Heap.Iteration
import PageMeta.Heap.Printer
import PageMeta.Heap.Trees
import PageMeta.Json.Document
import PageMeta.Json.Fault
import PageMeta.Json.Parser
import PageMeta.Json.Printer
import PageMeta.Library
import PageMeta.Main
import PageMeta.Numeric.Binary64
import PageMeta.Numeric.Decimal
import PageMeta.Object.Annotation
import PageMeta.Object.Assign
import PageMeta.Object.Binding
import PageMeta.Object.Description
import PageMeta.Object.Functions
import PageMeta.Object.Introspection
import PageMeta.Object.Invoke
import PageMeta.Object.Item
import PageMeta.Object.Lookup
import PageMeta.Object.Mapping
import PageMeta.Object.Parameters
import PageMeta.Object.Send
import PageMeta.Object.Signature
import PageMeta.Plain.Argument
import PageMeta.Plain.Binding
import PageMeta.Plain.Bytes
import PageMeta.Plain.Calls
import PageMeta.Plain.Construct
import PageMeta.Plain.Dictionary
import PageMeta.Plain.Fault
import PageMeta.Plain.Names
import PageMeta.Plain.Number
import PageMeta.Plain.Order
import PageMeta.Plain.Search
import PageMeta.Plain.Sequence
import PageMeta.Plain.Text
import PageMeta.Proofs.AttributeMap.Data
import PageMeta.Proofs.AttributeMap.Equality
import PageMeta.Proofs.AttributeMap.Layers
import PageMeta.Proofs.AttributeMap.Merge
import PageMeta.Proofs.AttributeMap.Midway
import PageMeta.Proofs.AttributeMap.Normal
import PageMeta.Proofs.AttributeMap.Overlay
import PageMeta.Proofs.AttributeMap.Owning
import PageMeta.Proofs.AttributeMap.Routes
import PageMeta.Proofs.AttributeMap.Sharing
import PageMeta.Proofs.AttributeMap.Sound
import PageMeta.Proofs.AttributeMap.Writes
import PageMeta.Proofs.Builder.Atomic
import PageMeta.Proofs.Builder.Blocks
import PageMeta.Proofs.Builder.Building
import PageMeta.Proofs.Builder.Checking
import PageMeta.Proofs.Builder.Failing
import PageMeta.Proofs.Builder.Feeding
import PageMeta.Proofs.Builder.Fields
import PageMeta.Proofs.Builder.Filing
import PageMeta.Proofs.Builder.History
import PageMeta.Proofs.Builder.InUse
import PageMeta.Proofs.Builder.Intact
import PageMeta.Proofs.Builder.Output
import PageMeta.Proofs.Builder.Payload
import PageMeta.Proofs.Builder.Platforms
import PageMeta.Proofs.Builder.Rendering
import PageMeta.Proofs.Builder.Reporting
import PageMeta.Proofs.Builder.Routes
import PageMeta.Proofs.Builder.Rules
import PageMeta.Proofs.Builder.Sending
import PageMeta.Proofs.Builder.Simple
import PageMeta.Proofs.Builder.Sources
import PageMeta.Proofs.Builder.Sparing
import PageMeta.Proofs.Builder.Standing
import PageMeta.Proofs.Builder.Taking
import PageMeta.Proofs.CommandLine.Check
import PageMeta.Proofs.Heap.Acyclic
import PageMeta.Proofs.Heap.Additions
import PageMeta.Proofs.Heap.Building
import PageMeta.Proofs.Heap.Changes
import PageMeta.Proofs.Heap.Detach
import PageMeta.Proofs.Heap.Detached
import PageMeta.Proofs.Heap.Equality
import PageMeta.Proofs.Heap.Grove
import PageMeta.Proofs.Heap.Keeping
import PageMeta.Proofs.Heap.Literals
import PageMeta.Proofs.Heap.Measures
import PageMeta.Proofs.Heap.Nesting
import PageMeta.Proofs.Heap.NewData
import PageMeta.Proofs.Heap.Paths
import PageMeta.Proofs.Heap.PlainData
import PageMeta.Proofs.Heap.Reading
import PageMeta.Proofs.Heap.Reworking
import PageMeta.Proofs.Heap.Simple
import PageMeta.Proofs.Heap.Sound
import PageMeta.Proofs.Heap.TreeShape
import PageMeta.Proofs.Heap.Written
import PageMeta.Proofs.Json.Reading
import PageMeta.Proofs.Object.Sending
import PageMeta.Proofs.Object.Simple
import PageMeta.Proofs.Outcome
import PageMeta.Proofs.Registry.Configure
import PageMeta.Proofs.Registry.Lifecycle
import PageMeta.Proofs.Registry.Session
import PageMeta.Proofs.Registry.Stores
import PageMeta.Proofs.Schema.Check
import PageMeta.Proofs.Schema.Instance
import PageMeta.Proofs.Schema.Rendering
import PageMeta.Proofs.Schema.Sparing
import PageMeta.Proofs.Schema.Typed
import PageMeta.Proofs.Settings.Again
import PageMeta.Proofs.Settings.Beside
import PageMeta.Proofs.Settings.Checking
import PageMeta.Proofs.Settings.Configuring
import PageMeta.Proofs.Settings.Contents
import PageMeta.Proofs.Settings.Dump
import PageMeta.Proofs.Settings.ExactLoading
import PageMeta.Proofs.Settings.Fresh
import PageMeta.Proofs.Settings.Holding
import PageMeta.Proofs.Settings.InUse
import PageMeta.Proofs.Settings.Influence
import PageMeta.Proofs.Settings.Loading
import PageMeta.Proofs.Settings.Merged
import PageMeta.Proofs.Settings.Order
import PageMeta.Proofs.Settings.Reporting
import PageMeta.Proofs.Settings.RoundTrip
import PageMeta.Proofs.Settings.Rules
import PageMeta.Proofs.Settings.Shape
import PageMeta.Proofs.Settings.Store
import PageMeta.Proofs.Tree.Alike
import PageMeta.Proofs.Tree.Content
import PageMeta.Proofs.Tree.Leaves
import PageMeta.Proofs.Tree.Merge
import PageMeta.Proofs.Tree.Normal
import PageMeta.Proofs.Tree.Overlay
import PageMeta.Proofs.Value.Entries
import PageMeta.Proofs.Value.Key
import PageMeta.Proofs.Value.Writing
import PageMeta.Schema.Basic
import PageMeta.Schema.Calls
import PageMeta.Schema.Check
import PageMeta.Schema.Dump
import PageMeta.Schema.Instance
import PageMeta.Schema.Issue
import PageMeta.Schema.Misuse
import PageMeta.Schema.Payload
import PageMeta.Schema.Record
import PageMeta.Schema.Scalar
import PageMeta.Schema.Selection
import PageMeta.Schema.Settings
import PageMeta.Script.Basic
import PageMeta.Script.Run
import PageMeta.Script.Snapshot
import PageMeta.Settings.Calls
import PageMeta.Settings.Defaults
import PageMeta.Settings.Load
import PageMeta.Settings.Registry
import PageMeta.Settings.Rules
import PageMeta.Settings.Store
import PageMeta.Text.Case
import PageMeta.Text.CaseTables
import PageMeta.Text.Class
import PageMeta.Text.LetterTables
import PageMeta.Text.Printable
import PageMeta.Text.Quoted
import PageMeta.Text.Utf8
import PageMeta.Value.Basic
import PageMeta.Value.Entries
import PageMeta.Value.Tree
import PageMeta.World
