import SketchPreview.Path
import SketchPreview.Text.Percent
import SketchPreview.Text.Search
import SketchPreview.Uri.Basic

/-!
What a preview shows, and the URI that names it.  A text that does not begin with the scheme is the
path of a file as it stands.
-/

namespace SketchPreview

inductive Target where
  | file (path : Path)
  /-- A buffer of an editor, by the editor's name for it. -/
  | editor (id : Text)
deriving DecidableEq

namespace Target

def scheme : Text := "processing-preview".toList

/-- The host of the URIs that name editors. -/
def editorHost : Text := "editor".toList

/-- Whether two targets are the same preview: spellings of a path do not differ. -/
def Same : Target → Target → Prop
  | .file p, .file q => p.Same q
  | .editor a, .editor b => a = b
  | _, _ => False

instance : (s t : Target) → Decidable (Same s t)
  | .file p, .file q => inferInstanceAs (Decidable (p.Same q))
  | .editor a, .editor b => inferInstanceAs (Decidable (a = b))
  | .file _, .editor _ => isFalse id
  | .editor _, .file _ => isFalse id

/-- Why a URI names no target. -/
inductive Fault where
  | malformed (fault : Uri.Fault)
  /-- The escapes in the path spell no text. -/
  | undecodable (fault : Text.Utf8.Fault)
  | noEditor
  | neither
deriving DecidableEq

def Fault.message (uri : Text) (f : Fault) : String :=
  let uri := String.ofList uri
  match f with
  | .malformed fault =>
    let reason := fault.message
    s!"invalid preview URI '{uri}': {reason}"
  | .undecodable fault =>
    let reason := fault.message
    s!"invalid preview URI '{uri}': {reason}"
  | .noEditor => s!"preview URI '{uri}' names no editor"
  | .neither => s!"preview URI '{uri}' must name an editor or an absolute path"

/-- The target of a URI whose path has been decoded. -/
def ofParts (host? : Option Text) (path : Text) : Except Fault Target :=
  match host? with
  | some host =>
    if host == editorHost then
      match path.dropWhile (· == '/') with
      | [] => .error .noEditor
      | id => .ok (.editor id)
    else .error .neither
  | none => if path.isEmpty then .error .neither else .ok (.file (Path.ofText path))

/-- The target that a URI names, from behind the colon of its scheme. -/
def ofUri (t : Text) : Except Fault Target :=
  match Uri.read t with
  | .error fault => .error (.malformed fault)
  | .ok uri =>
    match Text.Percent.decode uri.path with
    | .error fault => .error (.undecodable fault)
    | .ok path => ofParts uri.host? path

/-- The target that a user names, by URI or by path. -/
def parse (input : Text) : Except Fault Target :=
  match Text.behind? (scheme ++ [':']) input with
  | some rest => ofUri rest
  | none => .ok (.file (Path.ofText input))

/-- The URI of a target.  The separators of a path stay, all else that a URI gives a meaning to is
escaped. -/
def uri : Target → Text
  | .file path =>
    scheme ++ "://".toList ++
      ['/'].intercalate ((Text.pieces '/' path.shown).map Text.Percent.encode)
  | .editor id => scheme ++ "://".toList ++ editorHost ++ '/' :: Text.Percent.encode id

end Target
end SketchPreview
