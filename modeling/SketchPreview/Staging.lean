import SketchPreview.Error
import SketchPreview.Files.Access

/-!
Staging a sketch for the program that runs it: a directory with one file in it, both named for the
sketch.  The name is an identifier, so the directory lies directly below the root.
-/

namespace SketchPreview

structure Staging where
  root : Path
  name : Text
deriving DecidableEq

/-- Where a sketch has been staged. -/
structure Staged where
  directory : Path
  mainFile : Path
deriving DecidableEq

namespace Staging

def isNameChar (c : Char) : Bool := c.isAlphanum || c == '_'

/-- The identifier for a sketch: other characters become underscores, and one is put in front of a
digit. -/
def sketchName (raw : Text) : Text :=
  match raw.map fun c => if isNameChar c then c else '_' with
  | [] => "sketch".toList
  | c :: rest => if c.isDigit then '_' :: c :: rest else c :: rest

def named (root : Path) (raw : Text) : Staging := ⟨root, sketchName raw⟩

/-- Staging under the name of a sketch file, so that messages of the program still name the sketch.
-/
def forSketch (root sketch : Path) : Staging :=
  named root (match sketch.stem? with
    | some stem => Text.Utf8.decodeLossy stem
    | none => [])

def place (s : Staging) : Staged :=
  let directory := s.root.child (Text.Utf8.encode s.name)
  ⟨directory, directory.child (Text.Utf8.encode (s.name ++ ".pde".toList))⟩

/-- Writes a sketch where the program will look for it. -/
def compile (s : Staging) (source : Text) (tree : Files.Tree) :
    Except PreviewError Staged × Files.Tree :=
  if (Text.trim source).isEmpty then (.error .emptySketch, tree)
  else
    match tree.makeDirectories s.place.directory with
    | (.error fault, tree) => (.error (.file s.place.directory fault), tree)
    | (.ok (), tree) =>
      match tree.write s.place.mainFile (Text.Utf8.encode source) with
      | (.error fault, tree) => (.error (.file s.place.mainFile fault), tree)
      | (.ok (), tree) => (.ok s.place, tree)

end Staging
end SketchPreview
