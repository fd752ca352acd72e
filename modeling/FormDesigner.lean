import FormDesigner.Catalog.Standard
import FormDesigner.Document.Basic
import FormDesigner.Domain.Parser
import FormDesigner.Drop
import FormDesigner.Failure
import FormDesigner.Logging
import FormDesigner.Proofs.Program
import FormDesigner.Proofs.Tree.Runs
import FormDesigner.Template.Printer
import FormDesigner.Watch
import FormDesigner.Proofs.History.Rewind
import FormDesigner.Proofs.History.Inverse
import FormDesigner.Proofs.History.Undo
import FormDesigner.Proofs.Fields
import FormDesigner.Proofs.Value.Shape
import FormDesigner.Proofs.Editor.View
import FormDesigner.Proofs.History.Revert
import FormDesigner.Proofs.History.Coalescing
import FormDesigner.Proofs.Answers
import FormDesigner.Proofs.Registry.Names
import FormDesigner.Proofs.Registry.Building
import FormDesigner.Proofs.History.Gestures
import FormDesigner.Proofs.Editor.Defaults
import FormDesigner.Proofs.Tree.Paths
import FormDesigner.Proofs.Editor.Filling
import FormDesigner.Proofs.Document.RoundTrip
import FormDesigner.Proofs.Template.Rendering
import FormDesigner.Proofs.Template.Scanning
import FormDesigner.Proofs.History.Freshness
import FormDesigner.Proofs.History.Clearing
import FormDesigner.Proofs.History.Undoing
import FormDesigner.Proofs.Document.Minimal
import FormDesigner.Proofs.Json.Lexing
import FormDesigner.Proofs.Document.Text
import FormDesigner.Proofs.Registry.Canvas
import FormDesigner.Proofs.Document.Appearance
import FormDesigner.Proofs.Document.Rereading
import FormDesigner.Proofs.Watch.Looking
import FormDesigner.Proofs.Watch.Staleness
import FormDesigner.Proofs.History.Notices
import FormDesigner.Proofs.History.Dropping
import FormDesigner.Proofs.Registry.Circles
import FormDesigner.Proofs.Document.Loading
import FormDesigner.Proofs.History.Acceptance
import FormDesigner.Proofs.Document.Reopening
import FormDesigner.Proofs.Value.Decoding
import FormDesigner.Proofs.Value.Mismatches
import FormDesigner.Proofs.Editor.Agreement
import FormDesigner.Proofs.Editor.Connecting
import FormDesigner.Proofs.Tree.Refusals
import FormDesigner.Proofs.History.Halfway
import FormDesigner.Proofs.Tree.Exchanging
import FormDesigner.Proofs.Template.Joining
import FormDesigner.Proofs.Template.Faults
import FormDesigner.Proofs.Template.Quoting
import FormDesigner.Proofs.Domain.Describing
import FormDesigner.Proofs.History.Restoring
import FormDesigner.Proofs.Editor.Starting
import FormDesigner.Proofs.Catalog.Rows
import FormDesigner.Proofs.Grouping
import FormDesigner.Proofs.History.Numbering
import FormDesigner.Proofs.Tree.Visiting
