import SketchPreview.Proofs.Json.Compact
import SketchPreview.Proofs.Text.Utf8
import SketchPreview.Source
import SketchPreview.ViewState

/-!
A state that was kept opens the same preview again.

A state is written unless it has a path that is not text, and what is written is read as the state
itself (`ViewState.reads_toJson`): the parts that are left out are the ones that come out as none.
Between a source and its target nothing else happens, for the state of a source has the name of the
view, and its editor wins over its path (`Source.reopens`).
-/

namespace SketchPreview

open Json

theorem Path.text?_eq_some_iff {p : Path} {t : Text} : p.text? = some t ↔ p = Path.ofText t := by
  obtain ⟨bytes⟩ := p
  rw [Path.text?, Path.ofText, Path.mk.injEq, ← Text.Utf8.decode_eq_ok_iff]
  cases Text.Utf8.decode bytes <;> simp [Except.toOption]

namespace ViewState

/-- Only a path that is not text keeps a state from being written. -/
theorem exists_toJson?_iff {s : ViewState} :
    (∃ json, s.toJson? = some json) ↔ ∀ p, s.filePath = some p → ∃ t, p = Path.ofText t := by
  obtain ⟨name, file, editor⟩ := s
  cases file with
  | none => simp [toJson?]
  | some p =>
    simp only [← Path.text?_eq_some_iff]
    cases htext : p.text? <;> simp [toJson?, htext]

theorem fills_editor (name : Text) (file : Option (Option Path)) (editor : Option Text) :
    Record.Fills record.fields ⟨some name, file, none⟩
      (match editor with
        | none => []
        | some id => [Compact.member "editorId" (Compact.text id)])
      ⟨some name, file, editor.map some⟩ := by
  cases editor with
  | none => exact .nil _
  | some id => exact .field rfl rfl (Reader.reads_textAs .text id).optional (.nil _)

theorem reads_path (t : Text) :
    Reader.Reads (.optional ((Reader.textAs .path).map Path.ofText)) (some (Path.ofText t))
      (Compact.text t) :=
  ((Reader.reads_textAs .path t).map Path.ofText).optional

theorem finish_draft (name : Text) (file : Option Path) (editor : Option Text) :
    record.finish .object ⟨some name, file.map some, editor.map some⟩ =
      .ok ⟨name, file, editor⟩ := by
  cases file <;> cases editor <;> rfl

theorem reads_toJson {s : ViewState} {json : Text} (h : s.toJson? = some json) :
    Reader.Reads record.read s json := by
  obtain ⟨name, file, editor⟩ := s
  cases file with
  | none =>
    obtain rfl := Option.some.inj h
    refine Record.reads_record ?_ (finish_draft name none editor)
    refine .field rfl rfl (Reader.reads_textAs .text name) ?_
    exact fills_editor name none editor
  | some p =>
    cases htext : p.text? with
    | none => simp [toJson?, htext] at h
    | some t =>
      simp only [toJson?, htext, Option.map_some] at h
      obtain rfl := Option.some.inj h
      obtain rfl := Path.text?_eq_some_iff.mp htext
      refine Record.reads_record ?_ (finish_draft name (some (Path.ofText t)) editor)
      refine .field rfl rfl (Reader.reads_textAs .text name) ?_
      refine .field rfl rfl (reads_path t) ?_
      exact fills_editor name (some (some (Path.ofText t))) editor

theorem ofJson_toJson? {s : ViewState} {json : Text} (h : s.toJson? = some json) :
    ofJson json = .ok s :=
  Reader.document_of_reads (reads_toJson h)

end ViewState

namespace Source

theorem target_state (s : Source) : s.state.target = .ok s.target := by
  cases s with
  | file path => rfl
  | buffer b => rfl

/-- The state of a source whose path is text can be written, and what is written opens the target of
the source again. -/
theorem reopens (s : Source) (h : ∀ p, s.path? = some p → ∃ t, p = Path.ofText t) :
    ∃ json reopened, s.state.toJson? = some json ∧ ViewState.ofJson json = .ok reopened ∧
      reopened = s.state ∧ reopened.target = .ok s.target := by
  obtain ⟨json, hjson⟩ := (ViewState.exists_toJson?_iff (s := s.state)).mpr h
  exact ⟨json, s.state, hjson, ViewState.ofJson_toJson? hjson, rfl, s.target_state⟩

/-- A buffer of a file, its id and its path both made of what JSON escapes and what it does not. -/
def quoted : Source := .buffer
  { id := ['"', '\\', Char.ofNat 0, Char.ofNat 0x1F, 'é', Char.ofNat 0x10FFFF]
    title := []
    path := some (Path.ofText ['/', '"', '\\', '\n', Char.ofNat 0x7F, Char.ofNat 0xFFFD])
    text := "void draw() {}".toList }

theorem reopens_quoted : ∃ json reopened, quoted.state.toJson? = some json ∧
    ViewState.ofJson json = .ok reopened ∧ reopened = quoted.state ∧
      reopened.target = .ok quoted.target := by
  refine reopens quoted ?_
  intro p hp
  exact ⟨_, (Option.some.inj hp).symm⟩

end Source
end SketchPreview
