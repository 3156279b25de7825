import SketchPreview.Json.Record
import SketchPreview.Target

/-!
The state that a host keeps to open a preview again.
-/

namespace SketchPreview

structure ViewState where
  /-- The name of the view that can read the state. -/
  deserializer : Text
  filePath : Option Path
  editorId : Option Text
deriving DecidableEq

namespace ViewState

/-- The name of the preview's own view. -/
def deserializerName : Text := "ProcessingPreviewView".toList

def of (filePath : Option Path) (editorId : Option Text) : ViewState :=
  ⟨deserializerName, filePath, editorId⟩

/-- Why a state names nothing to open. -/
inductive Fault where
  | unknownDeserializer (name : Text)
  | nothingNamed
deriving DecidableEq

def Fault.message : Fault → String
  | .unknownDeserializer name =>
    let name := String.ofList name
    s!"unknown view state deserializer '{name}'"
  | .nothingNamed => "view state names neither a file nor an editor"

/-- The target to open.  An editor comes before a file, for the state of a buffer records both. -/
def target (s : ViewState) : Except Fault Target :=
  if s.deserializer == deserializerName then
    match s.editorId, s.filePath with
    | some id, _ => .ok (.editor id)
    | none, some path => .ok (.file path)
    | none, none => .error .nothingNamed
  else .error (.unknownDeserializer s.deserializer)

/-! ## JSON -/

/-- A state of which some parts may not be read yet. -/
structure Draft where
  deserializer : Option Text := none
  filePath : Option (Option Path) := none
  editorId : Option (Option Text) := none

/-- The name of the view is the one part that has to be there. -/
def Draft.finish (b : Json.Bracket) (d : Draft) : Except Json.Reason ViewState :=
  match d.deserializer with
  | some name => .ok ⟨name, d.filePath.getD none, d.editorId.getD none⟩
  | none =>
    match b with
    | .object => .error (.missingField "deserializer".toList)
    | .list => .error (.shortList 0 (.record "PreviewState") 3)

def record : Json.Record Draft ViewState where
  name := "PreviewState"
  fields := [
    .of "deserializer" .text (·.deserializer) fun a d => { d with deserializer := some a },
    .of "filePath" (.optional ((Json.Reader.textAs .path).map Path.ofText)) (·.filePath)
      fun a d => { d with filePath := some a },
    .of "editorId" (.optional .text) (·.editorId) fun a d => { d with editorId := some a }]
  blank := {}
  finish := Draft.finish

def ofJson (t : Text) : Except Json.Fault ViewState := record.read.document t

/-- The state as JSON, with only the parts that are there.  There is none for a path that is not
text. -/
def toJson? (s : ViewState) : Option Text := do
  let file ←
    match s.filePath with
    | none => some []
    | some path => path.text?.map fun t => [Json.Compact.member "filePath" (Json.Compact.text t)]
  let editor :=
    match s.editorId with
    | none => []
    | some id => [Json.Compact.member "editorId" (Json.Compact.text id)]
  return Json.Compact.object
    (Json.Compact.member "deserializer" (Json.Compact.text s.deserializer) :: file ++ editor)

/-- What is said of a state that cannot be written. -/
def unwritable : String := "path contains invalid UTF-8 characters"

end ViewState
end SketchPreview
