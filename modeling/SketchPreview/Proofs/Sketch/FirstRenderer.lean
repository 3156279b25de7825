import SketchPreview.Proofs.Sketch.SizeCall

/-!
Of the arguments of a call for the whole screen only the first that names a renderer counts.

Joined by commas and split again, tokens that are whole come out as they went in
(`split_intercalate`), so the renderer is found in the list itself (`renderer?_intercalate`).  What
the list holds besides it, in front or behind, leaves no trace in the new call
(`sized_of_first_renderer`).
-/

namespace SketchPreview
namespace Sketch

namespace Argument

/-- An argument that is neither blank nor a numeral, nor the token for all displays. -/
def NamesRenderer (token : Text) : Prop :=
  (∃ c ∈ token, Text.isBlank c = false) ∧
    Literal.isWhole Literal.integer (Text.trim token) = false ∧
    Literal.isWhole Literal.number (Text.trim token) = false ∧ Text.trim token ≠ fullSpanToken

theorem classify_trim (token : Text) : classify (Text.trim token) = classify token := by
  rw [classify, Text.trim_trim, classify]

theorem survives_iff {token : Text} : (classify token).survives = true ↔ NamesRenderer token := by
  have hblank : (Text.trim token).isEmpty = false ↔ ∃ c ∈ token, Text.isBlank c = false := by
    rw [← Bool.not_eq_true, List.isEmpty_iff, Text.trim_eq_nil_iff]
    simp
  rw [NamesRenderer, ← hblank, classify]
  split
  · rename_i h
    simp [Kind.survives, h]
  · rename_i h
    split
    · rename_i hnumeral
      rw [Bool.or_eq_true] at hnumeral
      rcases hnumeral with hnumeral | hnumeral <;> simp [Kind.survives, hnumeral]
    · rename_i hnumeral
      rw [Bool.or_eq_true, not_or, Bool.not_eq_true, Bool.not_eq_true] at hnumeral
      split
      · rename_i hspan
        simp [Kind.survives, beq_iff_eq.mp hspan]
      · rename_i hspan
        rw [beq_iff_eq] at hspan
        rw [Bool.not_eq_true] at h
        simp [Kind.survives, h, hnumeral, hspan]

instance : DecidablePred NamesRenderer := fun _ => decidable_of_iff _ survives_iff

theorem renderer?_intercalate {tokens : List Text} (h : ∀ token ∈ tokens, Whole token) :
    renderer? ([','].intercalate tokens) =
      (tokens.find? fun token => NamesRenderer token).map Text.trim := by
  have hkind : ∀ token : Text, (classify (Text.trim token)).survives =
      decide (NamesRenderer token) := by
    intro token
    rw [classify_trim, Bool.eq_iff_iff, survives_iff, decide_eq_true_eq]
  by_cases hempty : tokens = [[]]
  · rw [hempty]
    decide
  · rw [renderer?, split_intercalate hempty h, List.find?_map]
    congr 2
    funext token
    exact hkind token

end Argument

open Argument

theorem Call.sized_intercalate (d : Dimensions) {tokens : List Text}
    (h : ∀ token ∈ tokens, Whole token) {c : Call} (hc : c.arguments = [','].intercalate tokens) :
    c.sized d = sizeCall d ((tokens.find? fun token => NamesRenderer token).map Text.trim) := by
  rw [Call.sized_eq, hc, renderer?_intercalate h]

/-- The renderer of a list of whole tokens is the first that names one, trimmed.  So the new call
does not change when tokens that name none are put in, taken out or moved, nor when anything behind
one that does is changed.  A call without arguments needs no case of its own. -/
theorem sized_of_first_renderer (tokens : List Text) (h : ∀ token ∈ tokens, Whole token) :
    renderer? ([','].intercalate tokens) =
        (tokens.find? fun token => NamesRenderer token).map Text.trim ∧
      (∀ others : List Text, (∀ token ∈ others, Whole token) →
        (others.filter fun token => NamesRenderer token) =
          tokens.filter (fun token => NamesRenderer token) →
        ∀ (d : Dimensions) (c e : Call), c.arguments = [','].intercalate tokens →
          e.arguments = [','].intercalate others → e.sized d = c.sized d) ∧
      (∀ (front : List Text) (first : Text) (back others : List Text),
        tokens = front ++ first :: back → NamesRenderer first →
        (∀ token ∈ others, Whole token) →
        ∀ (d : Dimensions) (c e : Call), c.arguments = [','].intercalate tokens →
          e.arguments = [','].intercalate (front ++ first :: others) → e.sized d = c.sized d) ∧
      ∀ (d : Dimensions) (c : Call), c.hasNoArguments = true →
        c.sized d = sizeCall d none ∧ c.sized d = sizeCall d (renderer? c.arguments) := by
  refine ⟨renderer?_intercalate h, ?_, ?_, ?_⟩
  · intro others hothers hfilter d c e hc he
    rw [Call.sized_intercalate d h hc, Call.sized_intercalate d hothers he, ← List.head?_filter,
      ← List.head?_filter, hfilter]
  · intro front first back others htokens hfirst hothers d c e hc he
    have hwhole : ∀ token ∈ front ++ first :: others, Whole token := by
      intro token htoken
      rw [htokens] at h
      rcases List.mem_append.mp htoken with hfront | htoken
      · exact h token (List.mem_append_left _ hfront)
      rcases List.mem_cons.mp htoken with rfl | hback
      · exact h token (List.mem_append_right _ List.mem_cons_self)
      · exact hothers token hback
    have hfind : ∀ rest : List Text,
        (front ++ first :: rest).find? (fun token => NamesRenderer token) =
          (front.find? fun token => NamesRenderer token).or (some first) := by
      intro rest
      rw [List.find?_append, List.find?_cons_of_pos (by simpa using hfirst)]
    rw [Call.sized_intercalate d h hc, Call.sized_intercalate d hwhole he, htokens, hfind, hfind]
  · intro d c hc
    refine ⟨?_, Call.sized_eq d c⟩
    rw [Call.sized, if_pos hc]

/-- A renderer with commas in brackets and quotes, among tokens that name none, which are moved and
replaced; and with another renderer behind it, which is changed. -/
theorem sized_of_first_renderer_moved :
    let first := " pick(\"a,b\", [1, ',']) ".toList
    let tokens := ["0x10".toList, first, "SPAN".toList, "P3D".toList]
    let moved := ["SPAN\n".toList, [], first, " -1.5e3".toList, "P3D".toList]
    let changed := ["0x10".toList, first, "FX2D".toList]
    let call : List Text → Call := fun tokens => ⟨0, fullScreen, [], [','].intercalate tokens⟩
    (∀ token ∈ tokens, Whole token) ∧
      (call tokens).sized .standard = "size(800, 600, pick(\"a,b\", [1, ',']))".toList ∧
      (call moved).sized .standard = (call tokens).sized .standard ∧
      (call changed).sized .standard = (call tokens).sized .standard := by
  intro first tokens moved changed call
  have hwhole : ∀ token ∈ tokens, Whole token := by decide
  obtain ⟨hrenderer, hmoved, hchanged, -⟩ := sized_of_first_renderer tokens hwhole
  refine ⟨hwhole, ?_, ?_, ?_⟩
  · rw [Call.sized_eq, hrenderer]
    decide
  · exact hmoved moved (by decide) (by decide) .standard (call tokens) (call moved) rfl rfl
  · exact hchanged ["0x10".toList] first ["SPAN".toList, "P3D".toList] ["FX2D".toList] rfl
      (by decide) (by decide) .standard (call tokens) (call changed) rfl rfl

end Sketch
end SketchPreview
