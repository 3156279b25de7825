import SketchPreview.Error
import SketchPreview.Files.Access

/-!
What a preview reads.  The text of a sketch comes from a file, or from a buffer that an editor keeps
in step with the host; the configuration comes from a file, if there is one.
-/

namespace SketchPreview

structure Buffer where
  id : Text
  title : Text
  path : Option Path := none
  text : Text
deriving DecidableEq

inductive Source where
  | file (path : Path)
  | buffer (b : Buffer)
deriving DecidableEq

namespace Source

def nonEmpty (t : Text) : Option Text := if t.isEmpty then none else some t

@[simp] theorem nonEmpty_eq_none_iff {t : Text} : nonEmpty t = none ↔ t = [] := by
  simp [nonEmpty]

@[simp] theorem nonEmpty_eq_some_iff {t text : Text} :
    nonEmpty t = some text ↔ t = text ∧ text ≠ [] := by
  cases t with
  | nil => simp [nonEmpty, eq_comm]
  | cons c t =>
    simp only [nonEmpty, List.isEmpty_cons, Bool.false_eq_true, if_false, Option.some.injEq]
    refine ⟨?_, And.left⟩
    rintro rfl
    exact ⟨rfl, List.cons_ne_nil c t⟩

/-- The text to render, if there is any.  A file that is missing is as good as an empty one. -/
def read (tree : Files.Tree) : Source → Except PreviewError (Option Text)
  | .file path =>
    match tree.readText path with
    | .ok t => .ok (nonEmpty t)
    | .error .notFound => .ok none
    | .error fault => .error (.file path fault)
  | .buffer b => .ok (nonEmpty b.text)

/-- Whether this is the text of a source. -/
def Holds (tree : Files.Tree) (text : Text) : Source → Prop
  | .file path => tree.readText path = .ok text
  | .buffer b => b.text = text

/-- What is read from a source: its text, or nothing where that is empty or the file is missing, or
any other fault of the file. -/
structure Reading (tree : Files.Tree) (s : Source) (result : Except PreviewError (Option Text)) :
    Prop where
  text : ∀ text, result = .ok (some text) ↔ s.Holds tree text ∧ text ≠ []
  nothing : result = .ok none ↔
    s.Holds tree [] ∨ ∃ path, s = .file path ∧ tree.readText path = .error .notFound
  fault : ∀ e, result = .error e ↔ ∃ path fault, s = .file path ∧
    tree.readText path = .error fault ∧ fault ≠ .notFound ∧ e = .file path fault

theorem reading_read (tree : Files.Tree) (s : Source) : s.Reading tree (s.read tree) := by
  cases s with
  | buffer b => constructor <;> simp [read, Holds]
  | file path =>
    rcases hread : tree.readText path with fault | t
    · cases fault <;> constructor <;> simp [read, Holds, hread, eq_comm]
    · constructor <;> simp [read, Holds, hread]

def path? : Source → Option Path
  | .file path => some path
  | .buffer b => b.path

/-- What a preview is called whose sketch has no name. -/
def unnamed : Text := "Processing".toList

def name : Source → Text
  | .file path =>
    match path.fileName? with
    | some n => Text.Utf8.decodeLossy n
    | none => unnamed
  | .buffer b => if b.title.isEmpty then unnamed else b.title

def title (s : Source) : Text := s.name ++ " Preview".toList

def target : Source → Target
  | .file path => .file path
  | .buffer b => .editor b.id

def editorId? : Source → Option Text
  | .file _ => none
  | .buffer b => some b.id

def state (s : Source) : ViewState := .of s.path? s.editorId?

end Source

/-- Reads the configuration that a file holds.  Where no file can be found the defaults are taken;
one that is there has to be usable. -/
def Config.load (tree : Files.Tree) (p : Path) : Except PreviewError Config :=
  match tree.existing p with
  | .error _ => .ok {}
  | .ok _ =>
    match tree.readText p with
    | .error fault => .error (.file p fault)
    | .ok t =>
      match Config.ofJson t with
      | .error fault => .error (.config (some p) fault)
      | .ok c => .ok c

end SketchPreview
