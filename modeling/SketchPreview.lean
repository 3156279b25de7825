import SketchPreview.Main
import SketchPreview.Rehearsal
import SketchPreview.Runner.Handle
import SketchPreview.Watcher
import SketchPreview.Proofs.Sketch.Spans
import SketchPreview.Proofs.Sketch.Scan
import SketchPreview.Proofs.Session.Journal
import SketchPreview.Proofs.Session.Runs
import SketchPreview.Proofs.Sketch.Items
import SketchPreview.Proofs.Text.Pieces
import SketchPreview.Proofs.Text.Percent
import SketchPreview.Proofs.Text.Trim
import SketchPreview.Proofs.Target.RoundTrip
import SketchPreview.Proofs.Sketch.Tokens
import SketchPreview.Proofs.Sketch.SizeCall
import SketchPreview.Proofs.Sketch.Commute
import SketchPreview.Proofs.Session.Detail
import SketchPreview.Proofs.Session.Watching
import SketchPreview.Proofs.Target.Misdirection
import SketchPreview.Proofs.Json.Compact
import SketchPreview.Proofs.Config.RoundTrip
import SketchPreview.Proofs.Target.Reopening
import SketchPreview.Proofs.Session.Rendering
import SketchPreview.Proofs.Sketch.Locality
import SketchPreview.Proofs.Sketch.SecondPass
import SketchPreview.Proofs.Sketch.FirstRenderer
import SketchPreview.Proofs.Text.Languages
import SketchPreview.Proofs.Sketch.Numerals
import SketchPreview.Proofs.Sketch.Lines
import SketchPreview.Proofs.Target.Rootless
import SketchPreview.Proofs.Json.Grammar
import SketchPreview.Proofs.Json.Lexing
import SketchPreview.Proofs.Json.Passing
import SketchPreview.Proofs.Json.Decoding
import SketchPreview.Proofs.Json.Members
import SketchPreview.Proofs.Config.Settings
import SketchPreview.Proofs.Path.Ancestors
import SketchPreview.Proofs.Runner.Reaping
import SketchPreview.Proofs.Files.Walking
import SketchPreview.Proofs.Files.Changes
import SketchPreview.Proofs.Staging.Names
import SketchPreview.Proofs.Staging.Overwriting
import SketchPreview.Proofs.Runner.Placeholders
import SketchPreview.Proofs.Files.Faults
import SketchPreview.Proofs.Config.Loading
