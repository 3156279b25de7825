import SketchPreview.Error

/-!
Failures of the command, and the report of them: the failure itself, then its causes from the
nearest to the first.
-/

namespace SketchPreview
namespace CommandLine

inductive Failure where
  | emptySurface (width height : UInt32)
  | unreadableSketch (file : Path) (fault : Files.Fault)
  /-- What came on the standard input is not text. -/
  | unreadableInput
  | unusableConfig (file : Path) (error : PreviewError)
  | badTarget (error : PreviewError)
  /-- The target is the buffer of an editor, which only that editor can show. -/
  | editorTarget (id : Text)
  /-- The grammar of the file is not among those that may be previewed. -/
  | notPreviewable (file : Path) (grammar : Text) (enabled : List Text)
deriving DecidableEq

namespace Failure

def message : Failure → String
  | .emptySurface width height =>
    let size := Sketch.sizeText width height
    s!"surface size must be positive, got {size}"
  | .unreadableSketch file _ =>
    let file := String.ofList file.shown
    s!"Failed to read sketch '{file}'"
  | .unreadableInput => "Failed to read sketch from stdin"
  | .unusableConfig file _ =>
    let file := String.ofList file.shown
    s!"Failed to load config '{file}'"
  | .badTarget error => error.message
  | .editorTarget id =>
    let id := String.ofList id
    s!"editor {id} can only be previewed from inside its editor"
  | .notPreviewable file grammar enabled =>
    let file := String.ofList file.shown
    let grammar := String.ofList grammar
    let enabled := String.ofList (", ".toList.intercalate enabled)
    s!"'{file}' is not a previewable sketch (grammar '{grammar}', enabled: {enabled})"

/-- An error as a cause, with the fault that caused it. -/
def chain (e : PreviewError) : List String := e.message :: e.source?.toList

def causes : Failure → List String
  | .unreadableSketch _ fault => [fault.message]
  | .unreadableInput => [Files.Fault.notText.message]
  | .unusableConfig _ error => chain error
  | .badTarget error => error.source?.toList
  | .emptySurface _ _ | .editorTarget _ | .notPreviewable _ _ _ => []

/-- A cause with all its lines indented; a label stands in front of the first. -/
def indented (label margin cause : Text) : Text :=
  label ++ ('\n' :: margin).intercalate (Text.pieces '\n' cause) ++ ['\n']

/-- The label of a cause among several. -/
def numberLabel (n : Nat) : Text :=
  let digits := Text.decimal n
  List.replicate (5 - digits.length) ' ' ++ digits ++ ": ".toList

/-- What stands above the causes. -/
def heading : Text := "\nCaused by:\n".toList

/-- The text of a failure for the standard error. -/
def report (f : Failure) : Text :=
  "Error: ".toList ++ f.message.toList ++ ['\n'] ++
    match f.causes with
    | [] => []
    | [cause] => heading ++ indented (List.replicate 4 ' ') (List.replicate 4 ' ') cause.toList
    | causes => heading ++ (causes.zipIdx.flatMap fun (cause, n) =>
        indented (numberLabel n) (List.replicate 7 ' ') cause.toList)

end Failure
end CommandLine
end SketchPreview
