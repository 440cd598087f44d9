import ObjectMapping.Bytes
import ObjectMapping.Calendar
import ObjectMapping.Class.Basic
import ObjectMapping.Class.Descriptor
import ObjectMapping.Class.Record
import ObjectMapping.Class.Row
import ObjectMapping.Class.Strategy
import ObjectMapping.Class.Table
import ObjectMapping.ClassHandle
import ObjectMapping.Code.Basic
import ObjectMapping.Code.Printer
import ObjectMapping.CommandLine.Arguments
import ObjectMapping.CommandLine.Execution
import ObjectMapping.CommandLine.FileTree
import ObjectMapping.CommandLine.Files
import ObjectMapping.CommandLine.Path
import ObjectMapping.CommandLine.Search
import ObjectMapping.CommandLine.Wildcard
import ObjectMapping.Conversion
import ObjectMapping.Direction
import ObjectMapping.Double.Basic
import ObjectMapping.Double.Reader
import ObjectMapping.Double.Shortest
import ObjectMapping.Enumeration
import ObjectMapping.Error
import ObjectMapping.Execution.Evaluation
import ObjectMapping.Execution.Invocation
import ObjectMapping.Execution.Statements
import ObjectMapping.FieldType.Basic
import ObjectMapping.FieldType.Classification
import ObjectMapping.FieldType.Hashing
import ObjectMapping.FieldType.Namespace
import ObjectMapping.Json.Basic
import ObjectMapping.Json.Cursor
import ObjectMapping.Json.Outline
import ObjectMapping.Json.Printer
import ObjectMapping.Json.Scalar
import ObjectMapping.Keyed
import ObjectMapping.Main
import ObjectMapping.Method
import ObjectMapping.Plan
import ObjectMapping.Proofs.Bytes
import ObjectMapping.Proofs.Calendar
import ObjectMapping.Proofs.Class.Arguments
import ObjectMapping.Proofs.Class.Bypass
import ObjectMapping.Proofs.Class.Construction
import ObjectMapping.Proofs.Class.Consumption
import ObjectMapping.Proofs.Class.Descriptor
import ObjectMapping.Proofs.Class.Reconstruction
import ObjectMapping.Proofs.Class.Supply
import ObjectMapping.Proofs.Class.Twins
import ObjectMapping.Proofs.Code.Grouping
import ObjectMapping.Proofs.Code.Links
import ObjectMapping.Proofs.Code.MethodNames
import ObjectMapping.Proofs.Code.Names
import ObjectMapping.Proofs.Conversion.Agreement
import ObjectMapping.Proofs.Conversion.Amendment
import ObjectMapping.Proofs.Conversion.Descent
import ObjectMapping.Proofs.Conversion.Direct
import ObjectMapping.Proofs.Conversion.Elementwise
import ObjectMapping.Proofs.Conversion.Enumerations
import ObjectMapping.Proofs.Conversion.Growth
import ObjectMapping.Proofs.Conversion.Hygiene
import ObjectMapping.Proofs.Conversion.Interchange
import ObjectMapping.Proofs.Conversion.Lossless
import ObjectMapping.Proofs.Conversion.Pairing
import ObjectMapping.Proofs.Conversion.Preorder
import ObjectMapping.Proofs.Conversion.Revision
import ObjectMapping.Proofs.Conversion.RevisionSafety
import ObjectMapping.Proofs.Conversion.Rules
import ObjectMapping.Proofs.Conversion.Safety
import ObjectMapping.Proofs.Conversion.Settling
import ObjectMapping.Proofs.Conversion.Shapes
import ObjectMapping.Proofs.Conversion.Twins
import ObjectMapping.Proofs.Double.Finite
import ObjectMapping.Proofs.Enumeration
import ObjectMapping.Proofs.Execution.Calls
import ObjectMapping.Proofs.Execution.Effect
import ObjectMapping.Proofs.Execution.Expressions
import ObjectMapping.Proofs.Execution.Extension
import ObjectMapping.Proofs.FieldType.Hashing
import ObjectMapping.Proofs.FieldType.Induction
import ObjectMapping.Proofs.FieldType.Interchange
import ObjectMapping.Proofs.FieldType.Members
import ObjectMapping.Proofs.FieldType.Normal
import ObjectMapping.Proofs.FieldType.Reading
import ObjectMapping.Proofs.FieldType.Rearrangement
import ObjectMapping.Proofs.FieldType.Rendering
import ObjectMapping.Proofs.Inquiry.Basic
import ObjectMapping.Proofs.Inquiry.Conversion
import ObjectMapping.Proofs.Inquiry.Method
import ObjectMapping.Proofs.Inquiry.Registration
import ObjectMapping.Proofs.Json.Continuation
import ObjectMapping.Proofs.Json.Legible
import ObjectMapping.Proofs.Json.Scalar
import ObjectMapping.Proofs.Json.Soundness
import ObjectMapping.Proofs.Json.Weight
import ObjectMapping.Proofs.Keyed
import ObjectMapping.Proofs.Method.Create
import ObjectMapping.Proofs.Method.Descent
import ObjectMapping.Proofs.Method.Fields
import ObjectMapping.Proofs.Method.Growth
import ObjectMapping.Proofs.Method.Interchange
import ObjectMapping.Proofs.Method.Refinement
import ObjectMapping.Proofs.Method.Update
import ObjectMapping.Proofs.Outcome
import ObjectMapping.Proofs.Plan.Building
import ObjectMapping.Proofs.Plan.Change
import ObjectMapping.Proofs.Plan.Contributions
import ObjectMapping.Proofs.Plan.Decision
import ObjectMapping.Proofs.Plan.Directions
import ObjectMapping.Proofs.Plan.Evaluation
import ObjectMapping.Proofs.Plan.Interchange
import ObjectMapping.Proofs.Plan.Nesting
import ObjectMapping.Proofs.Plan.Progress
import ObjectMapping.Proofs.Registry.Agreement
import ObjectMapping.Proofs.Registry.Bypass
import ObjectMapping.Proofs.Registry.Descent
import ObjectMapping.Proofs.Registry.Enumerations
import ObjectMapping.Proofs.Registry.Extension
import ObjectMapping.Proofs.Registry.History
import ObjectMapping.Proofs.Registry.Idempotence
import ObjectMapping.Proofs.Registry.Interleaving
import ObjectMapping.Proofs.Registry.Knots
import ObjectMapping.Proofs.Registry.Listing
import ObjectMapping.Proofs.Registry.MethodAgreement
import ObjectMapping.Proofs.Registry.MethodSafety
import ObjectMapping.Proofs.Registry.MethodSettling
import ObjectMapping.Proofs.Registry.Methods
import ObjectMapping.Proofs.Registry.Nesting
import ObjectMapping.Proofs.Registry.Order
import ObjectMapping.Proofs.Registry.Pairing
import ObjectMapping.Proofs.Registry.PartialUpdate
import ObjectMapping.Proofs.Registry.Restriction
import ObjectMapping.Proofs.Registry.RoundTrip
import ObjectMapping.Proofs.Registry.Safety
import ObjectMapping.Proofs.Registry.SideChannel
import ObjectMapping.Proofs.Registry.Supply
import ObjectMapping.Proofs.Registry.Synthesis
import ObjectMapping.Proofs.Schema.Closure
import ObjectMapping.Proofs.Schema.ColumnDefault
import ObjectMapping.Proofs.Schema.Listing
import ObjectMapping.Proofs.Schema.Loading
import ObjectMapping.Proofs.Schema.Permutation
import ObjectMapping.Proofs.Schema.Preparation
import ObjectMapping.Proofs.TypeTree.Derivation
import ObjectMapping.Proofs.TypeTree.Grammar
import ObjectMapping.Proofs.TypeTree.Lexis
import ObjectMapping.Proofs.TypeTree.Spelling
import ObjectMapping.Proofs.Value.Admission
import ObjectMapping.Proofs.Value.Bare
import ObjectMapping.Proofs.Value.Change
import ObjectMapping.Proofs.Value.Conformance
import ObjectMapping.Proofs.Value.Copies
import ObjectMapping.Proofs.Value.Decoding
import ObjectMapping.Proofs.Value.Dictionary
import ObjectMapping.Proofs.Value.DistinctKeys
import ObjectMapping.Proofs.Value.Encoding
import ObjectMapping.Proofs.Value.Equality
import ObjectMapping.Proofs.Value.Equivalence
import ObjectMapping.Proofs.Value.Hashing
import ObjectMapping.Proofs.Value.Height
import ObjectMapping.Proofs.Value.Keys
import ObjectMapping.Proofs.Value.Marks
import ObjectMapping.Proofs.Value.Members
import ObjectMapping.Proofs.Value.Mirrors
import ObjectMapping.Proofs.Value.Parts
import ObjectMapping.Proofs.Value.Readings
import ObjectMapping.Proofs.Value.Rearrangement
import ObjectMapping.Proofs.Value.Restoration
import ObjectMapping.Proofs.Value.Soundness
import ObjectMapping.Proofs.Value.Steadiness
import ObjectMapping.Proofs.Value.Termination
import ObjectMapping.Proofs.Value.Tracking
import ObjectMapping.Proofs.Value.Trail
import ObjectMapping.Proofs.Value.Untyped
import ObjectMapping.Registry
import ObjectMapping.Schema.Basic
import ObjectMapping.Schema.Catalog
import ObjectMapping.Schema.Choice
import ObjectMapping.Schema.Misfit
import ObjectMapping.Schema.Reader
import ObjectMapping.Schema.Shape
import ObjectMapping.Text
import ObjectMapping.Text.Printable
import ObjectMapping.TypeTree.Basic
import ObjectMapping.TypeTree.Parser
import ObjectMapping.TypeTree.Token
import ObjectMapping.Value.Basic
import ObjectMapping.Value.Decoding
import ObjectMapping.Value.Encoding
import ObjectMapping.Value.Hashing
import ObjectMapping.Value.Printer
