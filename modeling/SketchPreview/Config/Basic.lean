import SketchPreview.Path
import SketchPreview.Sketch.Dimensions

/-!
The configuration of a preview.  Every setting has a default, and the defaults together are usable:
`usable_default`.  Which files may be previewed is a setting too: it lists grammar scopes, the names
under which editors know languages, and a file is previewed under the scope that its extension
names.
-/

namespace SketchPreview

namespace Grammar

/-- The scope of the sketch language. -/
def sketch : Text := "source.processing".toList

/-- The scope of a file, if its extension is there and is text.  Letters of ASCII count as lower
case. -/
def ofPath? (p : Path) : Option Text := do
  let bytes ← p.extension?
  let extension ← (Text.Utf8.decode bytes).toOption
  let extension := extension.map Char.toLower
  if extension == "pde".toList then return sketch else return "source.".toList ++ extension

end Grammar

/-- The program that runs a staged sketch.  Its arguments may hold placeholders. -/
structure Command where
  program : Text := "processing-java".toList
  arguments : List Text := ["--sketch=\x7bsketch\x7d".toList, "--run".toList]
deriving DecidableEq

structure Config where
  /-- Whether edits render once they settle, and not only saves and reloads. -/
  liveUpdate : Bool := true
  /-- A hint for the host about where the preview opens. -/
  openInSplitPane : Bool := true
  /-- The grammar scopes that may be previewed. -/
  grammars : List Text := [Grammar.sketch]
  width : UInt32 := 800
  height : UInt32 := 600
  /-- Milliseconds between two looks at the sketch file. -/
  pollInterval : UInt64 := 250
  command : Command := {}
deriving DecidableEq

namespace Config

instance : Inhabited Config := ⟨{}⟩

/-- Why a configuration cannot be used. -/
inductive Defect where
  | emptySurface (width height : UInt32)
  | blankProgram
deriving DecidableEq

def Defect.message : Defect → String
  | .emptySurface width height =>
    let size := Sketch.sizeText width height
    s!"width and height must be positive, got {size}"
  | .blankProgram => "command.program must not be empty"

/-- The surface that sketches are made for. -/
def dimensions (c : Config) : Except Defect Sketch.Dimensions :=
  match Sketch.Dimensions.of? c.width c.height with
  | some d => .ok d
  | none => .error (.emptySurface c.width c.height)

/-- What makes a configuration unusable, if anything does.  The size is looked at first. -/
def defect? (c : Config) : Option Defect :=
  match c.dimensions with
  | .error d => some d
  | .ok _ => if (Text.trim c.command.program).isEmpty then some .blankProgram else none

theorem usable_default : defect? {} = none := by decide

def acceptsGrammar (c : Config) (scope : Text) : Bool := c.grammars.contains scope

end Config
end SketchPreview
