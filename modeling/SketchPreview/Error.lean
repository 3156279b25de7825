import SketchPreview.Config.Json
import SketchPreview.Files.Fault
import SketchPreview.Runner.Launch
import SketchPreview.Runner.Status
import SketchPreview.Target
import SketchPreview.ViewState

/-!
What can go wrong with a preview.  Each constructor is a cause; `kind` sorts the causes, and the
message begins with the kind.
-/

namespace SketchPreview

namespace PreviewError

inductive Kind where
  | validation
  | io (path : Path)
  | compile
  | runtime
  | config
deriving DecidableEq

def Kind.heading : Kind → String
  | .validation => "validation error"
  | .io path =>
    let path := String.ofList path.shown
    s!"io error on '{path}'"
  | .compile => "compile error"
  | .runtime => "runtime error"
  | .config => "config error"

end PreviewError

inductive PreviewError where
  | target (uri : Text) (fault : Target.Fault)
  | viewState (fault : ViewState.Fault)
  | file (path : Path) (fault : Files.Fault)
  /-- There is no sketch but white space. -/
  | emptySketch
  | start (program : Text) (fault : Runner.Fault)
  /-- The sketch has ended by itself, and not as it should. -/
  | sketchFailed (status : Runner.Status)
  /-- The configuration cannot be used; `file?` is where it was read from. -/
  | config (file? : Option Path) (fault : Config.Fault)
  /-- An error of the host or of its sketch engine, in its own words. -/
  | reported (kind : PreviewError.Kind) (text : Text)
deriving DecidableEq

namespace PreviewError

def kind : PreviewError → Kind
  | .target _ _ | .viewState _ => .validation
  | .file path _ => .io path
  | .emptySketch => .compile
  | .start _ _ | .sketchFailed _ => .runtime
  | .config _ _ => .config
  | .reported kind _ => kind

/-- What is wrong, without the kind. -/
def reason : PreviewError → String
  | .target uri fault => fault.message uri
  | .viewState fault => fault.message
  | .file _ fault => fault.message
  | .emptySketch => "sketch source is empty"
  | .start program fault =>
    let program := String.ofList program
    let reason := fault.message
    s!"failed to start '{program}': {reason}"
  | .sketchFailed status =>
    let status := status.message
    s!"sketch exited with {status}"
  | .config (some path) (.malformed text fault) =>
    let path := String.ofList path.shown
    let reason := fault.message text
    s!"{path}: {reason}"
  | .config _ fault => fault.message
  | .reported _ text => String.ofList text

def message (e : PreviewError) : String :=
  let heading := e.kind.heading
  let reason := e.reason
  s!"{heading}: {reason}"

/-- The fault of a file that an error passes on, which its own message also holds. -/
def source? (e : PreviewError) : Option String :=
  match e.kind with
  | .io _ => some e.reason
  | _ => none

end PreviewError
end SketchPreview
