import Schematic.Async.Coroutine
import Schematic.Async.Loop
import Schematic.Batch
import Schematic.Calendar
import Schematic.Calendar.Iso
import Schematic.Check.Build
import Schematic.Check.Node
import Schematic.Check.Primitive
import Schematic.Check.Rule
import Schematic.Check.Run
import Schematic.Context.Messages
import Schematic.Declaration
import Schematic.Fault
import Schematic.Frame
import Schematic.Frame.Build
import Schematic.Frame.Cast
import Schematic.Frame.Cell
import Schematic.Frame.Column
import Schematic.Frame.ColumnType
import Schematic.Frame.Convert
import Schematic.Frame.DateFormat
import Schematic.Frame.Rows
import Schematic.Number.Binary
import Schematic.Number.Literal
import Schematic.Number.Places
import Schematic.Number.Shortest
import Schematic.Registry
import Schematic.Report
import Schematic.Schema.Build
import Schematic.Session
import Schematic.Sorting
import Schematic.Spec
import Schematic.Store
import Schematic.Tag
import Schematic.Term
import Schematic.Term.Eval
import Schematic.Text.Base64
import Schematic.Text.Mask
import Schematic.Text.Quote
import Schematic.Text.Unicode
import Schematic.Validation
import Schematic.Value.Basic
import Schematic.Value.Construct
import Schematic.Value.Equality
import Schematic.Value.Order
import Schematic.Value.Text
import Schematic.Proofs.Run
import Schematic.Proofs.Growth
import Schematic.Proofs.Soundness
import Schematic.Proofs.Synchrony
import Schematic.Proofs.Ends
import Schematic.Proofs.Faults
import Schematic.Proofs.Messages
import Schematic.Proofs.Coherence
import Schematic.Proofs.Building
import Schematic.Proofs.Answers
import Schematic.Proofs.Yields
import Schematic.Proofs.Agreement
import Schematic.Proofs.Frames
import Schematic.Proofs.Footprint
import Schematic.Proofs.Refusal
import Schematic.Proofs.Batches
import Schematic.Proofs.Awaiting
import Schematic.Proofs.Arrays
import Schematic.Proofs.Validators
import Schematic.Proofs.Unions
import Schematic.Proofs.Membership
import Schematic.Proofs.Extending
import Schematic.Proofs.FieldNames
import Schematic.Proofs.Settling
import Schematic.Proofs.Structure
import Schematic.Proofs.Records
import Schematic.Proofs.Numbers
import Schematic.Proofs.Registries
import Schematic.Proofs.Resolving
import Schematic.Proofs.Sessions
