import Onboarding.Analytics.Buffer
import Onboarding.Analytics.Queue
import Onboarding.Analytics.Record
import Onboarding.Assistant.Assembly
import Onboarding.Assistant.Editor
import Onboarding.Assistant.FieldScanner
import Onboarding.Assistant.Framing
import Onboarding.Assistant.Repair
import Onboarding.Assistant.Reply
import Onboarding.Change.Basic
import Onboarding.Change.Merge
import Onboarding.Change.Wire
import Onboarding.Condition.Basic
import Onboarding.Condition.Wire
import Onboarding.Console.Basic
import Onboarding.Console.Launch
import Onboarding.Destination.Basic
import Onboarding.Destination.Wire
import Onboarding.Dispatch
import Onboarding.Element.Basic
import Onboarding.Element.Redaction
import Onboarding.Element.References
import Onboarding.Element.Validity
import Onboarding.Element.Walk
import Onboarding.Element.Wire
import Onboarding.Failure
import Onboarding.Flow.Render
import Onboarding.Flow.Screen
import Onboarding.Flow.Session
import Onboarding.Flow.Stage
import Onboarding.Inputs
import Onboarding.Json.Basic
import Onboarding.Json.Numeral
import Onboarding.Json.Reader
import Onboarding.Json.Record
import Onboarding.Json.Writer
import Onboarding.Main
import Onboarding.Number.Binary64
import Onboarding.Number.Decimal
import Onboarding.Number.Shortest
import Onboarding.Selection
import Onboarding.Settings
import Onboarding.Source.Basic
import Onboarding.Source.Cached
import Onboarding.Style.Color
import Onboarding.Style.Length
import Onboarding.Style.Resolved
import Onboarding.Table
import Onboarding.Template
import Onboarding.Text.Blank
import Onboarding.Text.Printable
import Onboarding.Text.Quoted
import Onboarding.Text.Utf8
import Onboarding.Variables
import Onboarding.Proofs.Analytics.Delivery
import Onboarding.Proofs.Analytics.Flushing
import Onboarding.Proofs.Assistant.Balance
import Onboarding.Proofs.Assistant.Chunking
import Onboarding.Proofs.Assistant.Classification
import Onboarding.Proofs.Assistant.Conversation
import Onboarding.Proofs.Assistant.Cutting
import Onboarding.Proofs.Assistant.Following
import Onboarding.Proofs.Assistant.Framing
import Onboarding.Proofs.Assistant.Interruption
import Onboarding.Proofs.Assistant.Scanning
import Onboarding.Proofs.Assistant.Settling
import Onboarding.Proofs.Assistant.Stepping
import Onboarding.Proofs.Assistant.Truncation
import Onboarding.Proofs.Assistant.Watching
import Onboarding.Proofs.Change.Arrangement
import Onboarding.Proofs.Change.Batches
import Onboarding.Proofs.Change.Insertion
import Onboarding.Proofs.Change.Order
import Onboarding.Proofs.Change.Provenance
import Onboarding.Proofs.Change.Repetition
import Onboarding.Proofs.Change.Validity
import Onboarding.Proofs.Condition.Absence
import Onboarding.Proofs.Condition.Integers
import Onboarding.Proofs.Condition.Ordering
import Onboarding.Proofs.Element.Frame
import Onboarding.Proofs.Element.Occurrence
import Onboarding.Proofs.Element.Redaction
import Onboarding.Proofs.Element.References
import Onboarding.Proofs.Element.Validity
import Onboarding.Proofs.Element.Visits
import Onboarding.Proofs.Flow.ActionOrder
import Onboarding.Proofs.Flow.Dependence
import Onboarding.Proofs.Flow.Footprint
import Onboarding.Proofs.Flow.Lifecycle
import Onboarding.Proofs.Flow.Operation
import Onboarding.Proofs.Flow.Reachable
import Onboarding.Proofs.Flow.Refusal
import Onboarding.Proofs.Flow.Shadowing
import Onboarding.Proofs.Flow.Visibility
import Onboarding.Proofs.Json.Extent
import Onboarding.Proofs.Json.Grammar
import Onboarding.Proofs.Json.Reading
import Onboarding.Proofs.Json.Rereading
import Onboarding.Proofs.Json.Restriction
import Onboarding.Proofs.Json.Written
import Onboarding.Proofs.Number.Nearest
import Onboarding.Proofs.Number.Numerals
import Onboarding.Proofs.Number.Overflow
import Onboarding.Proofs.Selection.Agreement
import Onboarding.Proofs.Selection.History
import Onboarding.Proofs.Source.Fallback
import Onboarding.Proofs.Style.Finiteness
import Onboarding.Proofs.Style.Lengths
import Onboarding.Proofs.Style.Notation
import Onboarding.Proofs.Template.Tokens
import Onboarding.Proofs.Text.Decoding
import Onboarding.Proofs.Text.Sequences
import Onboarding.Proofs.Variables.Agreement
import Onboarding.Proofs.Wire.Canonical
import Onboarding.Proofs.Wire.Confined
import Onboarding.Proofs.Wire.Fields
import Onboarding.Proofs.Wire.Forest
import Onboarding.Proofs.Wire.Rules
