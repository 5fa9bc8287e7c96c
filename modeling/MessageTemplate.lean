import MessageTemplate.Template
import MessageTemplate.Proofs.Markup.Repair
import MessageTemplate.Proofs.Markup.Text
import MessageTemplate.Proofs.Reading.Literal
import MessageTemplate.Proofs.Resolution.Cache
import MessageTemplate.Proofs.Reading.Verbatim
import MessageTemplate.Proofs.Reading.Building
import MessageTemplate.Proofs.Reading.WellFormed
import MessageTemplate.Proofs.Reading.Options
import MessageTemplate.Proofs.Reading.Placeholder
import MessageTemplate.Proofs.Reading.Pattern
import MessageTemplate.Proofs.Reading.Declaration
import MessageTemplate.Proofs.Reading.Selection
import MessageTemplate.Proofs.Reading.Document
import MessageTemplate.Proofs.Reading.Fallback
import MessageTemplate.Proofs.Reading.Texts
import MessageTemplate.Proofs.Number.Shortest
import MessageTemplate.Proofs.Number.Rounding
import MessageTemplate.Proofs.Number.Override
import MessageTemplate.Proofs.Number.Percent
import MessageTemplate.Proofs.Number.Significant
import MessageTemplate.Proofs.Number.Whole
import MessageTemplate.Proofs.RoundTrip
import MessageTemplate.Proofs.Progress
import MessageTemplate.Proofs.Grammar.Placeholder
import MessageTemplate.Proofs.Grammar.SimpleMessage
import MessageTemplate.Proofs.Grammar.BareLiteral
import MessageTemplate.Proofs.Locality.Shift
import MessageTemplate.Proofs.Locality.Embedding
import MessageTemplate.Proofs.Locality.Placeholder
import MessageTemplate.Proofs.Locality.Recovery
import MessageTemplate.Proofs.Positions.Node
import MessageTemplate.Proofs.Positions.Ensures
import MessageTemplate.Proofs.Positions.Placeholder
import MessageTemplate.Proofs.Positions.Pattern
import MessageTemplate.Proofs.Positions.Document
import MessageTemplate.Proofs.Positions.Reported
import MessageTemplate.Proofs.Building.Contents
import MessageTemplate.Proofs.Building.Faults
import MessageTemplate.Proofs.Building.Presence
import MessageTemplate.Proofs.Building.Erasure
import MessageTemplate.Proofs.Building.Silence
import MessageTemplate.Proofs.Building.Inverse
import MessageTemplate.Proofs.Building.Reports
import MessageTemplate.Proofs.Resolution.Fallback
import MessageTemplate.Proofs.Resolution.Selection
import MessageTemplate.Proofs.Building.Choice
import MessageTemplate.Proofs.Resolution.Annotation
import MessageTemplate.Proofs.Resolution.Visibility
import MessageTemplate.Proofs.Positions.Faults
import MessageTemplate.Proofs.Order.Ordered
import MessageTemplate.Proofs.Order.Reading
import MessageTemplate.Proofs.Order.Building
import MessageTemplate.Proofs.Resolution.Output
import MessageTemplate.Proofs.Recovery.Reads
import MessageTemplate.Proofs.Recovery.Verbatim
import MessageTemplate.Proofs.Recovery.Content
import MessageTemplate.Proofs.Recovery.Agreement
import MessageTemplate.Proofs.Recovery.Junk
import MessageTemplate.Proofs.Resolution.Junk
import MessageTemplate.Proofs.Recovery.Shape
import MessageTemplate.Proofs.Recovery.Placeholder
import MessageTemplate.Proofs.Recovery.Overrun
import MessageTemplate.Proofs.Recovery.Pattern
import MessageTemplate.Proofs.Recovery.Declaration
import MessageTemplate.Proofs.Recovery.Tally
import MessageTemplate.Proofs.Recovery.Document
import MessageTemplate.Proofs.Layout.Recurrence
import MessageTemplate.Proofs.Layout.Items
import MessageTemplate.Proofs.Layout.Insertion
import MessageTemplate.Proofs.Layout.Blanks
import MessageTemplate.Proofs.Resolution.Lookup
import MessageTemplate.Proofs.Resolution.Reachability
import MessageTemplate.Proofs.Resolution.ErrorBound
import MessageTemplate.Proofs.Positions.LineColumn
import MessageTemplate.Proofs.Recovery.Canonical
import MessageTemplate.Proofs.Suggestion.Distance
import MessageTemplate.Proofs.Suggestion.Closest
import MessageTemplate.Proofs.Number.IntegerCast
