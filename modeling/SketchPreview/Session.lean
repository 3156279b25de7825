import SketchPreview.Sketch.Windowing
import SketchPreview.Source
import SketchPreview.Watcher

/-!
A session shows one sketch at a time.  Rendering reads the source, fits it to the surface, compiles
it, ends the sketch that runs and launches the new one, in this order: a source that does not
compile leaves the running sketch alone.
-/

namespace SketchPreview

/-- What a host provides, over a state `W` of its own: a file tree, a surface, and an engine that
compiles and runs sketches. -/
structure Backend (W Program Handle : Type) where
  files : W → Files.Tree
  dimensions : W → Sketch.Dimensions
  compile : Text → W → Except PreviewError Program × W
  launch : Program → W → Except PreviewError Handle × W
  /-- Ends a sketch, which is no error for one that has ended already. -/
  exit : Handle → W → Except PreviewError Unit × W
  /-- Fails when a sketch has failed by itself. -/
  poll : Handle → W → Except PreviewError Unit × W

inductive Outcome where
  | rendered
  /-- There was nothing to render, and what ran before still runs. -/
  | noSource
deriving DecidableEq

structure Session (Handle : Type) where
  source : Source
  config : Config := {}
  live : Option Handle := none

namespace Session

variable {W Program Handle : Type} (b : Backend W Program Handle)

def isLive (s : Session Handle) : Bool := s.live.isSome

/-- Ends the live sketch, if there is one.  A sketch that refuses stays, and can be ended later. -/
def close (s : Session Handle) (w : W) : Except PreviewError Unit × Session Handle × W :=
  match s.live with
  | none => (.ok (), s, w)
  | some h =>
    match b.exit h w with
    | (.error e, w) => (.error e, s, w)
    | (.ok (), w) => (.ok (), { s with live := none }, w)

/-- Puts a compiled sketch in place of the one that runs. -/
def replace (program : Program) (s : Session Handle) (w : W) :
    Except PreviewError Outcome × Session Handle × W :=
  match s.close b w with
  | (.error e, s, w) => (.error e, s, w)
  | (.ok (), s, w) =>
    match b.launch program w with
    | (.error e, w) => (.error e, s, w)
    | (.ok h, w) => (.ok .rendered, { s with live := some h }, w)

def render (s : Session Handle) (w : W) : Except PreviewError Outcome × Session Handle × W :=
  match s.source.read (b.files w) with
  | .error e => (.error e, s, w)
  | .ok none => (.ok .noSource, s, w)
  | .ok (some text) =>
    match b.compile (Sketch.windowed (b.dimensions w) text) w with
    | (.error e, w) => (.error e, s, w)
    | (.ok program, w) => s.replace b program w

/-- Renders if the event asks for it. -/
def handle (event : Event) (s : Session Handle) (w : W) :
    Except PreviewError (Option Outcome) × Session Handle × W :=
  if event.triggersRender s.config.liveUpdate then
    match s.render b w with
    | (.error e, s, w) => (.error e, s, w)
    | (.ok outcome, s, w) => (.ok (some outcome), s, w)
  else (.ok none, s, w)

theorem handle_eq (event : Event) (s : Session Handle) (w : W) :
    s.handle b event w = if event.triggersRender s.config.liveUpdate then
      ((s.render b w).1.map some, (s.render b w).2) else (.ok none, s, w) := by
  rw [handle]
  rcases s.render b w with ⟨_ | _, t, v⟩ <;> rfl

/-- Asks whether the live sketch has failed.  One that has is no longer live. -/
def check (s : Session Handle) (w : W) : Except PreviewError Unit × Session Handle × W :=
  match s.live with
  | none => (.ok (), s, w)
  | some h =>
    match b.poll h w with
    | (.error e, w) => (.error e, { s with live := none }, w)
    | (.ok (), w) => (.ok (), s, w)

/-- The end of the session.  A sketch that refuses to exit is given up. -/
def drop (s : Session Handle) (w : W) : W := (s.close b w).2.2

end Session
end SketchPreview
