import SketchPreview.Config.Json
import SketchPreview.Proofs.Json.Compact
import SketchPreview.Proofs.Text.Trim

/-!
A configuration that is written is read again as it was.

`Config.reads_toJson` goes through the settings in the order in which they are written: each is found
under its name, and read by the reader that its value was written for, so no setting takes its
default.  What is then refused of a written configuration is what is unusable about it, and nothing
else (`Config.ofJson_toJson`); so the configurations that texts give are those that are usable, and
`Config.ofJson_toJson_of_usable` is the round trip for them.
-/

namespace SketchPreview

open Json

/-! ## Drafts in which every setting has been read -/

def Command.Draft.of (c : Command) : Command.Draft := ⟨some c.program, some c.arguments⟩

def Config.Draft.of (c : Config) : Config.Draft :=
  ⟨some c.liveUpdate, some c.openInSplitPane, some c.grammars, some c.width, some c.height,
    some c.pollInterval, some c.command⟩

theorem Command.finish_of (c : Command) : Command.record.finish .object (.of c) = .ok c := rfl

theorem Config.finish_of (c : Config) : Config.record.finish .object (.of c) = .ok c := rfl

/-! ## What is written -/

theorem Command.reads_toJson (c : Command) : Reader.Reads Command.record.read c c.toJson := by
  refine Record.reads_record ?_ c.finish_of
  refine .field rfl rfl (Reader.reads_textAs .text c.program) ?_
  refine .field rfl rfl (Reader.reads_list fun t _ => Reader.reads_textAs .text t) ?_
  exact .nil _

theorem Config.reads_toJson (c : Config) : Reader.Reads Config.record.read c c.toJson := by
  refine Record.reads_record ?_ c.finish_of
  refine .field rfl rfl (Reader.reads_boolean c.liveUpdate) ?_
  refine .field rfl rfl (Reader.reads_boolean c.openInSplitPane) ?_
  refine .field rfl rfl (Reader.reads_list fun t _ => Reader.reads_textAs .text t) ?_
  refine .field rfl rfl (Reader.reads_word32 c.width) ?_
  refine .field rfl rfl (Reader.reads_word32 c.height) ?_
  refine .field rfl rfl (Reader.reads_word64 c.pollInterval) ?_
  refine .field rfl rfl c.command.reads_toJson ?_
  exact .nil _

namespace Config

theorem defect?_eq_none_iff {c : Config} : c.defect? = none ↔
    1 ≤ c.width ∧ 1 ≤ c.height ∧ ∃ x ∈ c.command.program, Text.isBlank x = false := by
  have hprogram : (Text.trim c.command.program).isEmpty = false ↔
      ∃ x ∈ c.command.program, Text.isBlank x = false := by
    rw [List.isEmpty_eq_false_iff, ne_eq, Text.trim_eq_nil_iff]
    simp only [not_forall, exists_prop, Bool.not_eq_true]
  have hpos : ∀ n : UInt32, 0 < n ↔ 1 ≤ n := by
    intro n
    rw [UInt32.lt_iff_toNat_lt, UInt32.le_iff_toNat_le]
    exact Nat.lt_iff_add_one_le
  rw [defect?, dimensions, Sketch.Dimensions.of?]
  by_cases hsize : 0 < c.width ∧ 0 < c.height
  · rw [dif_pos hsize]
    dsimp only
    rw [← hprogram, ← hpos, ← hpos, ← and_assoc, and_iff_right hsize]
    cases (Text.trim c.command.program).isEmpty <;> simp
  · rw [dif_neg hsize]
    dsimp only
    rw [← hpos, ← hpos, ← and_assoc]
    exact iff_of_false (Option.some_ne_none _) fun h => hsize h.1

theorem ofJson_toJson (c : Config) :
    ofJson c.toJson = c.defect?.elim (.ok c) fun d => .error (.defect d) := by
  rw [ofJson, Reader.document_of_reads c.reads_toJson]
  dsimp only
  cases c.defect? with
  | none => rfl
  | some d => rfl

theorem usable_of_ofJson {t : Text} {c : Config} (h : ofJson t = .ok c) : c.defect? = none := by
  rw [ofJson] at h
  split at h
  · cases h
  · split at h
    · cases h
    · rename_i hdefect
      obtain rfl := Except.ok.inj h
      exact hdefect

/-- Every usable configuration is read again from the text it is written as, whatever its settings
hold; so a configuration that any text gave is. -/
theorem ofJson_toJson_of_usable (c : Config) :
    (1 ≤ c.width → 1 ≤ c.height → (∃ x ∈ c.command.program, Text.isBlank x = false) →
      ofJson c.toJson = .ok c) ∧
    (c.defect? = none ↔
      1 ≤ c.width ∧ 1 ≤ c.height ∧ ∃ x ∈ c.command.program, Text.isBlank x = false) ∧
    ∀ t, ofJson t = .ok c → ofJson c.toJson = .ok c := by
  have hround : c.defect? = none → ofJson c.toJson = .ok c := by
    intro hc
    rw [ofJson_toJson, hc, Option.elim_none]
  refine ⟨?_, defect?_eq_none_iff, ?_⟩
  · intro hwidth hheight hprogram
    exact hround (defect?_eq_none_iff.mpr ⟨hwidth, hheight, hprogram⟩)
  · intro t ht
    exact hround (usable_of_ofJson ht)

/-- A configuration with the largest numbers, the least width and texts of characters that are
escaped, of none, and of four bytes. -/
def edge : Config where
  liveUpdate := false
  grammars := [[], ['"', '\\', '/', '\n', Char.ofNat 0, Char.ofNat 0x1F, Char.ofNat 0x7F]]
  width := 1
  height := 4294967295
  pollInterval := 18446744073709551615
  command := { program := [' ', Char.ofNat 0x10FFFF], arguments := [] }

theorem ofJson_toJson_edge :
    ofJson edge.toJson = .ok edge ∧ ofJson ({} : Config).toJson = .ok {} := by
  have hempty : ofJson ['{', '}'] = .ok {} := by
    have hreads : Reader.Reads record.read {} (Compact.object []) :=
      Record.reads_record (.nil _) rfl
    have hdocument : record.read.document ['{', '}'] = .ok {} := Reader.document_of_reads hreads
    simp only [ofJson, hdocument, usable_default]
  have hprogram : ∃ x ∈ edge.command.program, Text.isBlank x = false :=
    ⟨Char.ofNat 0x10FFFF, List.mem_cons_of_mem _ List.mem_cons_self, by decide⟩
  exact ⟨(ofJson_toJson_of_usable edge).1 (by decide) (by decide) hprogram,
    (ofJson_toJson_of_usable {}).2.2 ['{', '}'] hempty⟩

end Config

end SketchPreview
