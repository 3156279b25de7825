import SketchPreview.Proofs.Path.Ancestors
import SketchPreview.Staging

/-!
The names under which sketches are staged.

Cleaning leaves exactly the identifiers as they are (`sketchName_eq_self_iff`) and gives nothing
else, so cleaning again changes nothing.  An identifier is one component of a path, as is the name
of the file that is named for it; so what is staged lies one and two components below the root
(`components_directory`, `components_mainFile`).
-/

namespace SketchPreview
namespace Staging

/-- A word over the letters and digits of ASCII and `_` that begins with no digit. -/
structure IsIdentifier (t : Text) : Prop where
  ne_nil : t ≠ []
  chars : ∀ c ∈ t, 'A' ≤ c ∧ c ≤ 'Z' ∨ 'a' ≤ c ∧ c ≤ 'z' ∨ '0' ≤ c ∧ c ≤ '9' ∨ c = '_'
  first : ∀ c, t.head? = some c → ¬('0' ≤ c ∧ c ≤ '9')

/-! ## Cleaning -/

theorem isNameChar_iff {c : Char} : isNameChar c = true ↔
    'A' ≤ c ∧ c ≤ 'Z' ∨ 'a' ≤ c ∧ c ≤ 'z' ∨ '0' ≤ c ∧ c ≤ '9' ∨ c = '_' := by
  have hclasses : isNameChar c = (decide ('A' ≤ c ∧ c ≤ 'Z') ||
      decide ('a' ≤ c) && decide (c ≤ 'z') || decide ('0' ≤ c) && decide (c ≤ '9') ||
      c == '_') := rfl
  simp only [hclasses, Bool.or_eq_true, Bool.and_eq_true, decide_eq_true_eq, beq_iff_eq, or_assoc]

theorem isDigit_iff {c : Char} : c.isDigit = true ↔ '0' ≤ c ∧ c ≤ '9' := by
  simp only [Char.isDigit, Bool.and_eq_true, decide_eq_true_eq]
  rfl

theorem isIdentifier_cons_iff {c : Char} {rest : Text} :
    IsIdentifier (c :: rest) ↔ (∀ d ∈ c :: rest, isNameChar d = true) ∧ c.isDigit = false := by
  simp only [isNameChar_iff, ← Bool.not_eq_true, isDigit_iff]
  constructor
  · intro h
    exact ⟨h.chars, h.first c rfl⟩
  · intro h
    refine ⟨List.cons_ne_nil c rest, h.1, ?_⟩
    intro d hd
    obtain rfl := Option.some.inj hd
    exact h.2

theorem isIdentifier_sketchName (raw : Text) : IsIdentifier (sketchName raw) := by
  have hclean : ∀ d ∈ raw.map fun c => if isNameChar c then c else '_', isNameChar d = true := by
    intro d hd
    obtain ⟨c, -, rfl⟩ := List.mem_map.mp hd
    split
    · assumption
    · decide
  rw [sketchName]
  split
  · have hsketch : "sketch".toList.all isNameChar = true := by decide
    exact isIdentifier_cons_iff.mpr ⟨List.all_eq_true.mp hsketch, by decide⟩
  · rename_i c rest heq
    rw [heq] at hclean
    split
    · refine isIdentifier_cons_iff.mpr ⟨?_, by decide⟩
      intro d hd
      rcases List.mem_cons.mp hd with rfl | hd
      · decide
      · exact hclean d hd
    · rename_i hdigit
      exact isIdentifier_cons_iff.mpr ⟨hclean, Bool.eq_false_iff.mpr hdigit⟩

theorem sketchName_eq_self {t : Text} (h : IsIdentifier t) : sketchName t = t := by
  obtain ⟨c, rest, rfl⟩ := List.exists_cons_of_ne_nil h.ne_nil
  obtain ⟨hchars, hdigit⟩ := isIdentifier_cons_iff.mp h
  have hmap : (c :: rest).map (fun c => if isNameChar c then c else '_') = c :: rest := by
    rw [List.map_congr_left (g := id), List.map_id]
    intro d hd
    exact if_pos (hchars d hd)
  simp [sketchName, hmap, hdigit]

theorem sketchName_eq_self_iff {t : Text} : sketchName t = t ↔ IsIdentifier t :=
  ⟨fun h => h ▸ isIdentifier_sketchName t, sketchName_eq_self⟩

theorem sketchName_sketchName (raw : Text) : sketchName (sketchName raw) = sketchName raw :=
  sketchName_eq_self (isIdentifier_sketchName raw)

/-! ## Identifiers in paths -/

theorem plain_encode {c : Char} {rest : Text} (hdot : c ≠ '.') (hslash : '/' ∉ c :: rest) :
    (Path.Component.name (Text.Utf8.encode (c :: rest))).Plain := by
  have heq : ∀ t, Text.Utf8.encode (c :: rest) = Text.Utf8.encode t → c :: rest = t := by
    intro t h
    have htext := Text.Utf8.decode_encode (c :: rest)
    rw [h, Text.Utf8.decode_encode, Except.ok.injEq] at htext
    exact htext.symm
  constructor
  · apply Path.Component.ofPiece?_eq_name
    · exact fun h => List.cons_ne_nil c rest (heq [] h)
    · exact fun h => hdot (List.cons.inj (heq ['.'] h)).1
    · exact fun h => hdot (List.cons.inj (heq ['.', '.'] h)).1
  · intro h
    obtain ⟨d, hd, hmem⟩ := List.mem_flatMap.mp h
    have hmark : UInt8.ofNat '/'.toNat ∈ String.utf8EncodeChar d := hmem
    rw [Text.Utf8.mem_utf8EncodeChar_iff (by decide)] at hmark
    exact hslash (hmark ▸ hd)

theorem IsIdentifier.plain {t : Text} (h : IsIdentifier t) (suffix : Text)
    (hsuffix : '/' ∉ suffix) :
    (Path.Component.name (Text.Utf8.encode (t ++ suffix))).Plain := by
  have hchars : ∀ c ∈ t, c ≠ '.' ∧ c ≠ '/' := by
    intro c hc
    have hname := isNameChar_iff.mpr (h.chars c hc)
    constructor <;> rintro rfl <;> exact absurd hname (by decide)
  obtain ⟨c, rest, rfl⟩ := List.exists_cons_of_ne_nil h.ne_nil
  apply plain_encode (hchars c List.mem_cons_self).1
  show '/' ∉ (c :: rest) ++ suffix
  rw [List.mem_append, not_or]
  exact ⟨fun hslash => (hchars _ hslash).2 rfl, hsuffix⟩

section Place

variable {s : Staging} (h : IsIdentifier s.name)

include h

theorem plain_name : (Path.Component.name (Text.Utf8.encode s.name)).Plain := by
  rw [← List.append_nil s.name]
  exact h.plain [] List.not_mem_nil

theorem components_directory : s.place.directory.components =
    s.root.components ++ [.name (Text.Utf8.encode s.name)] :=
  Path.components_child s.root (plain_name h)

theorem components_mainFile : s.place.mainFile.components = s.place.directory.components ++
    [.name (Text.Utf8.encode (s.name ++ ".pde".toList))] :=
  Path.components_child _ (h.plain _ (by decide))

theorem passes_directory : s.place.mainFile.Passes s.place.directory := by
  have hne : s.place.directory.bytes ≠ [] := by
    apply Path.bytes_ne_nil
    rw [components_directory h]
    simp
  exact Path.passes_child hne (h.plain _ (by decide))

end Place

end Staging
end SketchPreview
