import EvidenceGraph.Text.Alphanumeric
import EvidenceGraph.Text.Blank
import EvidenceGraph.Text.Bytes
import EvidenceGraph.Text.Caseless
import EvidenceGraph.Text.Quoted
import EvidenceGraph.Decimal.Numeral
import EvidenceGraph.Decimal.Shortest
import EvidenceGraph.Decimal.Style
import EvidenceGraph.Digest.Sha256
import EvidenceGraph.Timestamp
import EvidenceGraph.Error
import EvidenceGraph.Violation
import EvidenceGraph.Json.Basic
import EvidenceGraph.Json.Writer
import EvidenceGraph.Json.Tree
import EvidenceGraph.Json.Document
import EvidenceGraph.Node.Tags
import EvidenceGraph.Node.Basic
import EvidenceGraph.Node.Field
import EvidenceGraph.Node.Encoding
import EvidenceGraph.Node.Draft
import EvidenceGraph.Query.Lexeme
import EvidenceGraph.Query.Keyword
import EvidenceGraph.Query.Literal
import EvidenceGraph.Query.Basic
import EvidenceGraph.Query.Fault
import EvidenceGraph.Query.Clause
import EvidenceGraph.Query.Recovery
import EvidenceGraph.Query.Parse
import EvidenceGraph.Query.Encoding
import EvidenceGraph.Store.Basic
import EvidenceGraph.Store.Matching
import EvidenceGraph.Store.Selection
import EvidenceGraph.Store.Projection
import EvidenceGraph.Causal.Direction
import EvidenceGraph.Causal.Graph
import EvidenceGraph.Causal.Walk
import EvidenceGraph.Causal.Defaults
import EvidenceGraph.Snapshot
import EvidenceGraph.Pattern.Basic
import EvidenceGraph.Pattern.Support
import EvidenceGraph.Pattern.Escape
import EvidenceGraph.Pattern.Class
import EvidenceGraph.Pattern.Reader
import EvidenceGraph.Settings.Basic
import EvidenceGraph.Settings.Key
import EvidenceGraph.Settings.Overlay
import EvidenceGraph.Settings.Loose
import EvidenceGraph.Settings.Variables
import EvidenceGraph.Settings.Definitions
import EvidenceGraph.Settings.LogFilter
import EvidenceGraph.Settings.FileName
import EvidenceGraph.Settings.Load
import EvidenceGraph.Command.Basic
import EvidenceGraph.Command.Arguments
import EvidenceGraph.Command.Help
import EvidenceGraph.Command.Metrics
import EvidenceGraph.Command.Session
import EvidenceGraph.Main
import EvidenceGraph.Proofs.Text.ByteOrder
import EvidenceGraph.Proofs.Store.History
import EvidenceGraph.Proofs.Store.Pairs
import EvidenceGraph.Proofs.Store.Relations
import EvidenceGraph.Proofs.Node.Validity
import EvidenceGraph.Proofs.Snapshot.Loading
import EvidenceGraph.Proofs.Causal.Recursion
import EvidenceGraph.Proofs.Causal.Trails
import EvidenceGraph.Proofs.Causal.Bound
import EvidenceGraph.Proofs.Causal.Shape
import EvidenceGraph.Proofs.Causal.Saturation
import EvidenceGraph.Proofs.Causal.Converse
import EvidenceGraph.Proofs.Causal.Frames
import EvidenceGraph.Proofs.Decimal.Numerals
import EvidenceGraph.Proofs.Decimal.Places
import EvidenceGraph.Proofs.Decimal.Rounding
import EvidenceGraph.Proofs.Decimal.Packing
import EvidenceGraph.Proofs.Decimal.Order
import EvidenceGraph.Proofs.Decimal.Nearest
import EvidenceGraph.Proofs.Decimal.Shortest
import EvidenceGraph.Proofs.Decimal.Integers
import EvidenceGraph.Proofs.Decimal.Written
import EvidenceGraph.Proofs.Query.Grammar
import EvidenceGraph.Proofs.Query.Reading
import EvidenceGraph.Proofs.Query.Conditions
import EvidenceGraph.Proofs.Query.Modes
import EvidenceGraph.Proofs.Query.Clauses
import EvidenceGraph.Proofs.Query.Phrases
import EvidenceGraph.Proofs.Query.Skipping
import EvidenceGraph.Proofs.Query.Recovery
import EvidenceGraph.Proofs.Query.Acceptance
import EvidenceGraph.Proofs.Query.Silence
import EvidenceGraph.Proofs.Query.Spelling
import EvidenceGraph.Proofs.Query.Pieces
import EvidenceGraph.Proofs.Query.Canonical
import EvidenceGraph.Proofs.Query.RoundTrip
import EvidenceGraph.Proofs.Query.Segments
import EvidenceGraph.Proofs.Query.Shape
import EvidenceGraph.Proofs.Query.Faithful
import EvidenceGraph.Proofs.Query.Lenient
import EvidenceGraph.Proofs.Query.Tails
import EvidenceGraph.Proofs.Query.Groups
import EvidenceGraph.Proofs.Query.Openings
import EvidenceGraph.Proofs.Query.Within
import EvidenceGraph.Proofs.Query.Filters
import EvidenceGraph.Proofs.Query.Spans
import EvidenceGraph.Proofs.Query.Fragments
import EvidenceGraph.Proofs.Store.SortKeys
import EvidenceGraph.Proofs.Store.Sorting
import EvidenceGraph.Proofs.Store.Paging
import EvidenceGraph.Proofs.Store.Operators
import EvidenceGraph.Proofs.Store.Ranking
import EvidenceGraph.Proofs.Json.Compact
import EvidenceGraph.Proofs.Json.Members
import EvidenceGraph.Proofs.Node.Identity
import EvidenceGraph.Proofs.Node.Building
import EvidenceGraph.Proofs.Store.Projecting
import EvidenceGraph.Proofs.Query.Quoting
import EvidenceGraph.Proofs.Query.Tiling
import EvidenceGraph.Proofs.Query.Integers
import EvidenceGraph.Proofs.Store.Searching
import EvidenceGraph.Proofs.Json.Lossless
import EvidenceGraph.Proofs.Causal.Frames
