import SketchPreview.CommandLine.Failure
import SketchPreview.CommandLine.Request
import SketchPreview.Sketch.Windowing
import SketchPreview.Source

/-!
What the command does for a request: print a fitted sketch, or find out what to preview and how.
-/

namespace SketchPreview
namespace CommandLine

/-- A preview that is ready to start. -/
structure Plan where
  sketch : Path
  config : Config
  surface : Sketch.Dimensions
  /-- Where sketches are staged, unless the system's own place will do. -/
  staging : Option Path

/-- What a request comes to when nothing fails. -/
inductive Answer where
  | print (text : Text)
  | preview (plan : Plan)

/-- The path that stands for the standard input. -/
def standardInput : Path := .ofString "-"

def surface (width height : UInt32) : Except Failure Sketch.Dimensions :=
  match Sketch.Dimensions.of? width height with
  | some d => .ok d
  | none => .error (.emptySurface width height)

def readSketch (tree : Files.Tree) (input : List UInt8) (file : Path) : Except Failure Text :=
  if file.Same standardInput then
    match Text.Utf8.decode input with
    | .ok t => .ok t
    | .error _ => .error .unreadableInput
  else
    match tree.readText file with
    | .ok t => .ok t
    | .error fault => .error (.unreadableSketch file fault)

def transcode (tree : Files.Tree) (input : List UInt8) (file : Path) (width height : UInt32) :
    Except Failure Text := do
  let d ← surface width height
  let source ← readSketch tree input file
  return Sketch.windowed d source

def loadConfig (tree : Files.Tree) : Option Path → Except Failure Config
  | none => .ok {}
  | some file =>
    match Config.load tree file with
    | .ok c => .ok c
    | .error e => .error (.unusableConfig file e)

/-- The sketch file that a target names. -/
def sketchOf (target : Text) : Except Failure Path :=
  match Target.parse target with
  | .error fault => .error (.badTarget (.target target fault))
  | .ok (.editor id) => .error (.editorTarget id)
  | .ok (.file path) => .ok path

/-- Makes sure that a file may be previewed. -/
def permit (c : Config) (file : Path) : Except Failure Unit :=
  let grammar := (Grammar.ofPath? file).getD []
  if c.acceptsGrammar grammar then .ok () else .error (.notPreviewable file grammar c.grammars)

def plan (tree : Files.Tree) (target : Text) (options : PreviewOptions) : Except Failure Plan := do
  let loaded ← loadConfig tree options.config
  let c := { loaded with
    width := options.width.getD loaded.width
    height := options.height.getD loaded.height }
  let d ← surface c.width c.height
  let sketch ← sketchOf target
  permit c sketch
  return ⟨sketch, c, d, options.staging⟩

/-- The line that names the command and its version. -/
def versionLine : Text := "processing-preview 0.1.0\n".toList

/-- A reminder of how the command is called. -/
def usage : Text :=
  ("Usage: processing-preview transcode [--width N] [--height N] FILE\n" ++
    "       processing-preview preview [--config FILE] [--width N] [--height N] [--staging DIR] " ++
    "TARGET\n").toList

def answer (tree : Files.Tree) (input : List UInt8) : Request → Except Failure Answer
  | .transcode file width height => (transcode tree input file width height).map .print
  | .preview target options => (plan tree target options).map .preview
  | .version => .ok (.print versionLine)
  | .help => .ok (.print usage)

end CommandLine
end SketchPreview
