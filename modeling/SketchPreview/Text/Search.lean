import SketchPreview.Text.Basic

/-!
Finding a word in a text.  `cutAt?` splits a text at the first occurrence, and everything that looks
for a word goes through it: `eq_of_cutAt?` says that nothing is lost by the split, and
`length_lt_of_cutAt?` that a search continued behind the word ends.  `behind?` asks for a word at
the front.
-/

namespace SketchPreview
namespace Text

/-- The text before the first occurrence of `word` and the text after it. -/
def cutAt? (word : Text) : Text → Option (Text × Text)
  | [] => if word.isEmpty then some ([], []) else none
  | c :: rest =>
    if word.isPrefixOf (c :: rest) then some ([], (c :: rest).drop word.length)
    else (cutAt? word rest).map fun (before, after) => (c :: before, after)

theorem eq_of_cutAt? {word t before after : Text} (h : cutAt? word t = some (before, after)) :
    t = before ++ word ++ after := by
  induction t generalizing before with
  | nil =>
    by_cases hw : word.isEmpty = true
    · simp only [cutAt?, hw, if_true, Option.some.injEq, Prod.mk.injEq] at h
      obtain ⟨rfl, rfl⟩ := h
      simp_all
    · simp [cutAt?, hw] at h
  | cons c rest ih =>
    by_cases hp : word.isPrefixOf (c :: rest) = true
    · simp only [cutAt?, hp, if_true, Option.some.injEq, Prod.mk.injEq] at h
      obtain ⟨rfl, rfl⟩ := h
      obtain ⟨s, hs⟩ := List.isPrefixOf_iff_prefix.1 hp
      simp [← hs]
    · simp only [cutAt?, hp, Bool.false_eq_true, if_false, Option.map_eq_some_iff, Prod.mk.injEq,
        Prod.exists] at h
      obtain ⟨b, a, hr, rfl, rfl⟩ := h
      simpa using ih hr

theorem length_lt_of_cutAt? {word t before after : Text} (hw : word ≠ [])
    (h : cutAt? word t = some (before, after)) : after.length < t.length := by
  have := List.length_pos_iff.2 hw
  simp only [eq_of_cutAt? h, List.length_append]
  omega

/-- Replaces every occurrence of `word`, found from the left and without overlap. -/
def replaceAll (word new t : Text) : Text :=
  if hw : word = [] then t
  else
    match h : cutAt? word t with
    | none => t
    | some (before, after) =>
      have := length_lt_of_cutAt? hw h
      before ++ new ++ replaceAll word new after
termination_by t.length

/-- The text behind a word that it begins with. -/
def behind? : Text → Text → Option Text
  | [], t => some t
  | _ :: _, [] => none
  | c :: word, d :: t => if c == d then behind? word t else none

theorem behind?_eq_some_iff {word t rest : Text} :
    behind? word t = some rest ↔ t = word ++ rest := by
  induction word generalizing t with
  | nil => simp [behind?]
  | cons c word ih =>
    cases t with
    | nil => simp [behind?]
    | cons d t =>
      by_cases h : c = d
      · simp [behind?, h, ih]
      · simp only [behind?, beq_iff_eq, h, if_false, List.cons_append, List.cons.injEq]
        simp [Ne.symm h]

end Text
end SketchPreview
