import ScopeTrack.Command
import ScopeTrack.Command.Arguments
import ScopeTrack.Error
import ScopeTrack.File.Access
import ScopeTrack.File.Artifact
import ScopeTrack.File.Disk
import ScopeTrack.File.Path
import ScopeTrack.File.Task
import ScopeTrack.Instrument
import ScopeTrack.Json.Basic
import ScopeTrack.Json.Number
import ScopeTrack.Json.Quoted
import ScopeTrack.Json.Reader
import ScopeTrack.Json.Token
import ScopeTrack.Json.Writer
import ScopeTrack.Main
import ScopeTrack.Patch
import ScopeTrack.Scope.Chain
import ScopeTrack.Scope.Frame
import ScopeTrack.Source.LineIndex
import ScopeTrack.Source.Location
import ScopeTrack.Source.Span
import ScopeTrack.Table
import ScopeTrack.Table.Name
import ScopeTrack.Text.Blank
import ScopeTrack.Text.Lines
import ScopeTrack.Text.Numeral
import ScopeTrack.Text.Width
import ScopeTrack.Track.Analysis
import ScopeTrack.Track.Diagnostic
import ScopeTrack.Track.Log
import ScopeTrack.Track.Tracker
import ScopeTrack.Track.UpdateSite
import ScopeTrack.Tree.Binding
import ScopeTrack.Tree.Estree
import ScopeTrack.Tree.Node
import ScopeTrack.Tree.Resolve
import ScopeTrack.Tree.Shape
import ScopeTrack.Tree.Target
import ScopeTrack.Proofs.Table.Registration
import ScopeTrack.Proofs.Tree.Nodes
import ScopeTrack.Proofs.Tree.Spot
import ScopeTrack.Proofs.Tree.Notes
import ScopeTrack.Proofs.Track.Step
import ScopeTrack.Proofs.Track.Enter
import ScopeTrack.Proofs.Track.Visit
import ScopeTrack.Proofs.Track.Program
import ScopeTrack.Proofs.Track.ScopeDiscipline
import ScopeTrack.Proofs.Track.Collected
import ScopeTrack.Proofs.Patch.Splice
import ScopeTrack.Proofs.Source.Lines
import ScopeTrack.Proofs.Source.LineEnds
import ScopeTrack.Proofs.Patch.Point
import ScopeTrack.Proofs.Patch.Insertion
import ScopeTrack.Proofs.Patch.AnyOrder
import ScopeTrack.Proofs.Text.Bytes
import ScopeTrack.Proofs.Source.Exact
import ScopeTrack.Proofs.Source.LineStarts
import ScopeTrack.Proofs.Patch.SourceOrder
import ScopeTrack.Proofs.Text.SingleLine
import ScopeTrack.Proofs.Tree.Names
import ScopeTrack.Proofs.Track.Invariant
import ScopeTrack.Proofs.Track.Agreement
import ScopeTrack.Proofs.Tree.Edges
import ScopeTrack.Proofs.Track.Unresolved
import ScopeTrack.Proofs.Track.Recorded
import ScopeTrack.Proofs.Tree.Layout
import ScopeTrack.Proofs.Track.Placement
import ScopeTrack.Proofs.Track.Patchable
import ScopeTrack.Proofs.Patch.Instrumented
import ScopeTrack.Proofs.Scope.Naming
import ScopeTrack.Proofs.Scope.Calls
import ScopeTrack.Proofs.File.Artifact
import ScopeTrack.Proofs.File.Storage
import ScopeTrack.Proofs.File.Pool
import ScopeTrack.Proofs.File.Interleaving
import ScopeTrack.Proofs.File.Clash
import ScopeTrack.Proofs.Source.LocationKey
import ScopeTrack.Proofs.Table.History
import ScopeTrack.Proofs.Text.Numeral
import ScopeTrack.Proofs.Json.Spelling
import ScopeTrack.Proofs.Json.RoundTrip
import ScopeTrack.Proofs.Table.Literal
import ScopeTrack.Proofs.Tree.FunctionNames
import ScopeTrack.Proofs.Track.Anonymous
import ScopeTrack.Proofs.File.Naming
import ScopeTrack.Proofs.File.System
import ScopeTrack.Proofs.File.Disk
import ScopeTrack.Proofs.File.Containment
import ScopeTrack.Proofs.Tree.BindingOrder
import ScopeTrack.Proofs.Tree.Outermost
