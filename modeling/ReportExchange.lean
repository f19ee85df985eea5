import ReportExchange.Amendment.Comparison
import ReportExchange.Amendment.Difference
import ReportExchange.Ancestor.Cache
import ReportExchange.Ancestor.Inject
import ReportExchange.Calendar
import ReportExchange.Catalog.Acyclic
import ReportExchange.Catalog.Ancestry
import ReportExchange.Catalog.Basic
import ReportExchange.Catalog.Codec
import ReportExchange.Catalog.Definition
import ReportExchange.CommandLine.Arguments
import ReportExchange.CommandLine.Files
import ReportExchange.CommandLine.Grid
import ReportExchange.CommandLine.Help
import ReportExchange.CommandLine.Run
import ReportExchange.CommandLine.Spec
import ReportExchange.CommandLine.Terminal
import ReportExchange.CommandLine.Trouble
import ReportExchange.Configuration
import ReportExchange.Datum.Basic
import ReportExchange.Datum.Extent
import ReportExchange.Dispatch.Send
import ReportExchange.Dispatch.Transport
import ReportExchange.Envelope.Field
import ReportExchange.Envelope.Operation
import ReportExchange.Envelope.OperationType
import ReportExchange.Envelope.Sender
import ReportExchange.Formula.Evaluation
import ReportExchange.Identity
import ReportExchange.Index
import ReportExchange.Intake.Assembler
import ReportExchange.Intake.Parser
import ReportExchange.Intake.Rows
import ReportExchange.Json.Printer
import ReportExchange.Json.Reader
import ReportExchange.Lifecycle.Action
import ReportExchange.Lifecycle.Status
import ReportExchange.Main
import ReportExchange.Proofs.Amendment.Application
import ReportExchange.Proofs.Amendment.Comparison
import ReportExchange.Proofs.Amendment.Difference
import ReportExchange.Proofs.Amendment.Exports
import ReportExchange.Proofs.Amendment.Rendered
import ReportExchange.Proofs.Ancestor.Faithful
import ReportExchange.Proofs.Ancestor.Fetched
import ReportExchange.Proofs.Ancestor.Inject
import ReportExchange.Proofs.Ancestor.Injected
import ReportExchange.Proofs.Ancestor.Inquiry
import ReportExchange.Proofs.Ancestor.Session
import ReportExchange.Proofs.Catalog.Ancestry
import ReportExchange.Proofs.Catalog.Build
import ReportExchange.Proofs.Catalog.Consistent
import ReportExchange.Proofs.Catalog.Cycle
import ReportExchange.Proofs.Catalog.Nearest
import ReportExchange.Proofs.Catalog.Order
import ReportExchange.Proofs.Catalog.Reordered
import ReportExchange.Proofs.Catalog.Search
import ReportExchange.Proofs.Catalog.Staging
import ReportExchange.Proofs.Dispatch.Acknowledged
import ReportExchange.Proofs.Dispatch.Course
import ReportExchange.Proofs.Dispatch.Failure
import ReportExchange.Proofs.Dispatch.Handed
import ReportExchange.Proofs.Dispatch.Round
import ReportExchange.Proofs.Envelope
import ReportExchange.Proofs.Formula.Cells
import ReportExchange.Proofs.Formula.Coherence
import ReportExchange.Proofs.Formula.Defects
import ReportExchange.Proofs.Formula.Frame
import ReportExchange.Proofs.Formula.Grammar
import ReportExchange.Proofs.Formula.Idempotence
import ReportExchange.Proofs.Formula.Lockstep
import ReportExchange.Proofs.Formula.Lookup
import ReportExchange.Proofs.Formula.Order
import ReportExchange.Proofs.Formula.Outcome
import ReportExchange.Proofs.Formula.Passes
import ReportExchange.Proofs.Formula.Reachable
import ReportExchange.Proofs.Formula.Reference
import ReportExchange.Proofs.Formula.Refresh
import ReportExchange.Proofs.Formula.Resolution
import ReportExchange.Proofs.Formula.Steady
import ReportExchange.Proofs.Formula.Stored
import ReportExchange.Proofs.Identity
import ReportExchange.Proofs.Index
import ReportExchange.Proofs.Intake.Ahead
import ReportExchange.Proofs.Intake.Awaits
import ReportExchange.Proofs.Intake.Calls
import ReportExchange.Proofs.Intake.Contents
import ReportExchange.Proofs.Intake.Document
import ReportExchange.Proofs.Intake.Grammar
import ReportExchange.Proofs.Intake.Message
import ReportExchange.Proofs.Intake.Outline
import ReportExchange.Proofs.Intake.Rows
import ReportExchange.Proofs.Intake.Takes
import ReportExchange.Proofs.Intake.Truncated
import ReportExchange.Proofs.Json.RoundTrip
import ReportExchange.Proofs.Json.Scalar
import ReportExchange.Proofs.Lookup
import ReportExchange.Proofs.Report.Archive
import ReportExchange.Proofs.Report.Chains
import ReportExchange.Proofs.Report.Children
import ReportExchange.Proofs.Report.Defects
import ReportExchange.Proofs.Report.Depth
import ReportExchange.Proofs.Report.Envelope
import ReportExchange.Proofs.Report.Fetches
import ReportExchange.Proofs.Report.Fields
import ReportExchange.Proofs.Report.Forest
import ReportExchange.Proofs.Report.Message
import ReportExchange.Proofs.Report.Provenance
import ReportExchange.Proofs.Report.Restored
import ReportExchange.Proofs.Report.RoundTrip
import ReportExchange.Proofs.Report.Sender
import ReportExchange.Proofs.Report.Tags
import ReportExchange.Proofs.Report.Upward
import ReportExchange.Proofs.Report.Visits
import ReportExchange.Proofs.Report.Walk
import ReportExchange.Proofs.Row.Agreement
import ReportExchange.Proofs.Row.Record
import ReportExchange.Proofs.Row.Spares
import ReportExchange.Proofs.Store.Counter
import ReportExchange.Proofs.Store.Dumped
import ReportExchange.Proofs.Store.Loaded
import ReportExchange.Proofs.Store.Rows
import ReportExchange.Proofs.Success
import ReportExchange.Proofs.Text.Encoding
import ReportExchange.Proofs.Text.Numeral
import ReportExchange.Proofs.Text.Split
import ReportExchange.Proofs.Xml.Element
import ReportExchange.Proofs.Xml.Escaping
import ReportExchange.Proofs.Xml.Legible
import ReportExchange.Proofs.Xml.Name
import ReportExchange.Proofs.Xml.Path
import ReportExchange.Proofs.Xml.Tag
import ReportExchange.Report.Export
import ReportExchange.Report.Message
import ReportExchange.Report.Walk
import ReportExchange.Row.Basic
import ReportExchange.Row.Record
import ReportExchange.Schema.Column
import ReportExchange.Schema.Formula
import ReportExchange.Schema.Table
import ReportExchange.Store.Basic
import ReportExchange.Store.DataFile
import ReportExchange.Text.Blank
import ReportExchange.Text.Case
import ReportExchange.Text.Digit
import ReportExchange.Text.Magnitude
import ReportExchange.Text.Numeral
import ReportExchange.Text.Split
import ReportExchange.Text.Utf16
import ReportExchange.Text.Utf8
import ReportExchange.Text.Width
import ReportExchange.Text.Width.Emoji
import ReportExchange.Text.Width.Mark
import ReportExchange.Text.Width.Wide
import ReportExchange.Toml.Reader
import ReportExchange.Toml.Scalar
import ReportExchange.Xml.Element
import ReportExchange.Xml.Escape
import ReportExchange.Xml.Reader
import ReportExchange.Xml.Reading
