import SketchPreview.Session
import SketchPreview.Staging

/-!
A backend that runs no sketch.  It numbers what it is asked to launch and keeps a log of what is
asked of it; switches make it fail.
-/

namespace SketchPreview

/-- What is to fail. -/
structure Switches where
  compile : Bool := false
  launch : Bool := false
  exit : Bool := false
  poll : Bool := false
deriving DecidableEq

structure Rehearsal where
  files : Files.Tree
  surface : Sketch.Dimensions := .standard
  /-- Where sketches are staged; without it a compiled sketch is its text. -/
  staging : Option Staging := none
  switches : Switches := {}
  launched : Nat := 0
  /-- The entries of the log, latest first. -/
  log : List Text := []

namespace Rehearsal

def note (r : Rehearsal) (entry : Text) : Rehearsal := { r with log := entry :: r.log }

def numbered (verb : String) (n : Nat) : Text := verb.toList ++ ' ' :: Text.decimal n

/-- An error of the engine that is rehearsed. -/
def refusal (kind : PreviewError.Kind) (text : String) : PreviewError := .reported kind text.toList

def compile (source : Text) (r : Rehearsal) : Except PreviewError Text × Rehearsal :=
  if r.switches.compile then (.error (refusal .compile "unexpected token"), r)
  else
    match r.staging with
    | none => (.ok source, r.note ("compile ".toList ++ source))
    | some staging =>
      match staging.compile source r.files with
      | (.error e, files) => (.error e, { r with files })
      | (.ok staged, files) =>
        let r := { r with files }.note
          ("stage ".toList ++ staged.directory.shown ++ ' ' :: staged.mainFile.shown)
        match files.readText staged.mainFile with
        | .ok program => (.ok program, r)
        | .error fault => (.error (.file staged.mainFile fault), r)

def launch (program : Text) (r : Rehearsal) : Except PreviewError Nat × Rehearsal :=
  if r.switches.launch then (.error (refusal .runtime "no surface"), r)
  else
    let n := r.launched + 1
    (.ok n, { r with launched := n }.note (numbered "launch" n ++ ' ' :: program))

def exit (n : Nat) (r : Rehearsal) : Except PreviewError Unit × Rehearsal :=
  if r.switches.exit then (.error (refusal .runtime "sketch ignored kill"), r)
  else (.ok (), r.note (numbered "exit" n))

def poll (n : Nat) (r : Rehearsal) : Except PreviewError Unit × Rehearsal :=
  let r := r.note (numbered "poll" n)
  if r.switches.poll then (.error (refusal .runtime "boom"), r) else (.ok (), r)

def backend : Backend Rehearsal Text Nat where
  files := files
  dimensions := surface
  compile := compile
  launch := launch
  exit := exit
  poll := poll

end Rehearsal
end SketchPreview
