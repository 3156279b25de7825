import SketchPreview.Proofs.Text.Expansion
import SketchPreview.Runner.Launch

/-!
The placeholders of a command's arguments.

An argument should be read once, and what comes from the directory be passed on as it is.  The
placeholders are replaced one kind after another instead, so a width or height is also filled in
where the directory's text holds or completes a placeholder.  `argumentsFor_eq_expand_iff` says that
this is the only difference: the arguments are those of one reading exactly if filling in the
directory makes no such placeholder.
-/

namespace SketchPreview
namespace Runner

/-- The placeholder for the directory of the sketch. -/
def sketchWord : Text := "\x7bsketch\x7d".toList

/-- The placeholder for the width of the surface. -/
def widthWord : Text := "\x7bwidth\x7d".toList

/-- The placeholder for the height of the surface. -/
def heightWord : Text := "\x7bheight\x7d".toList

/-- What stands for the placeholders. -/
def placeholders (directory : Path) (d : Sketch.Dimensions) : List (Text × Text) :=
  [(sketchWord, directory.shown), (widthWord, Text.decimal d.width.toNat),
    (heightWord, Text.decimal d.height.toNat)]

/-- Whether filling in the directory makes a placeholder for the width or the height. -/
def Arises (directory : Path) (argument : Text) : Prop :=
  ∃ word ∈ [widthWord, heightWord], Text.occurrences word argument <
    Text.occurrences word (Text.replaceAll sketchWord directory.shown argument)

theorem braced_sketchWord : Text.Braced sketchWord :=
  ⟨"sketch".toList, by decide, by decide, by decide⟩

theorem braced_widthWord : Text.Braced widthWord :=
  ⟨"width".toList, by decide, by decide, by decide⟩

theorem braced_heightWord : Text.Braced heightWord :=
  ⟨"height".toList, by decide, by decide, by decide⟩

theorem proper_placeholders (directory : Path) (d : Sketch.Dimensions) :
    Text.Proper (placeholders directory d) where
  braced := by
    intro entry hentry
    simp only [placeholders, List.mem_cons, List.not_mem_nil, or_false] at hentry
    rcases hentry with rfl | rfl | rfl
    · exact braced_sketchWord
    · exact braced_widthWord
    · exact braced_heightWord
  apart := by
    have hapart : sketchWord ≠ widthWord ∧ sketchWord ≠ heightWord ∧ widthWord ≠ heightWord := by
      decide
    simp [placeholders, hapart]

theorem placeholders_eq (directory : Path) (d : Sketch.Dimensions) : placeholders directory d =
    ([(sketchWord, directory.shown)] ++ [(widthWord, Text.decimal d.width.toNat)]) ++
      [(heightWord, Text.decimal d.height.toNat)] := rfl

theorem proper_width (directory : Path) (d : Sketch.Dimensions) :
    Text.Proper ([(sketchWord, directory.shown)] ++ [(widthWord, Text.decimal d.width.toNat)]) :=
  (proper_placeholders directory d).sublist (by simp [placeholders])

theorem proper_height (directory : Path) (d : Sketch.Dimensions) :
    Text.Proper ([(sketchWord, directory.shown)] ++ [(heightWord, Text.decimal d.height.toNat)]) :=
  (proper_placeholders directory d).sublist (by simp [placeholders])

section Filling

variable (directory : Path) (d : Sketch.Dimensions) (argument : Text)

theorem fillIn_eq : fillIn directory d argument =
    Text.expand [(heightWord, Text.decimal d.height.toNat)]
      (Text.expand [(widthWord, Text.decimal d.width.toNat)]
        (Text.expand [(sketchWord, directory.shown)] argument)) := by
  rw [← Text.replaceAll_eq_expand braced_sketchWord, ← Text.replaceAll_eq_expand braced_widthWord,
    ← Text.replaceAll_eq_expand braced_heightWord]
  rfl

/-- A numeral makes no placeholder. -/
theorem apart_decimal (n : Nat) {word : Text} (hword : word.any Char.isDigit = false) :
    ∀ c ∈ Text.decimal n, c ∉ word := by
  intro c hc hmem
  have hdigit : c.isDigit = true := Nat.isDigit_of_mem_toDigits (by decide) (by decide) hc
  exact List.any_eq_false.mp hword c hmem hdigit

/-- Filling in the width makes no placeholder for the height. -/
theorem occurrences_heightWord (t : Text) :
    Text.occurrences heightWord (Text.expand [(widthWord, Text.decimal d.width.toNat)] t) =
      Text.occurrences heightWord t :=
  Text.occurrences_expand braced_widthWord Nat.toDigits_ne_nil braced_heightWord (by decide)
    (apart_decimal d.width.toNat (by decide)) t

/-- The width and the height may be filled in after the directory if that has made no more of their
placeholders. -/
theorem fillIn_of_occurrences
    (hwidth : Text.occurrences widthWord (Text.expand [(sketchWord, directory.shown)] argument) =
      Text.occurrences widthWord argument)
    (hheight : Text.occurrences heightWord (Text.expand [(sketchWord, directory.shown)] argument) =
      Text.occurrences heightWord argument) :
    fillIn directory d argument = Text.expand (placeholders directory d) argument := by
  have hproper := proper_placeholders directory d
  have hboth := Text.expand_expand (proper_width directory d) hwidth
  rw [List.singleton_append] at hboth
  rw [fillIn_eq, hboth]
  apply Text.expand_expand hproper
  rw [← hboth, occurrences_heightWord, hheight]

/-- The braces that are left tell how many placeholders were replaced. -/
theorem occurrences_of_fillIn
    (h : fillIn directory d argument = Text.expand (placeholders directory d) argument) :
    Text.occurrences widthWord (Text.expand [(sketchWord, directory.shown)] argument) +
        Text.occurrences heightWord (Text.expand [(sketchWord, directory.shown)] argument) =
      Text.occurrences widthWord argument + Text.occurrences heightWord argument := by
  have hopen : ∀ n, '{' ∉ Text.decimal n := by
    intro n hmem
    have hbrace : ['{'].any Char.isDigit = false := by decide
    exact apart_decimal n hbrace _ hmem (List.mem_singleton_self _)
  have hwidth := Text.count_expand_single braced_widthWord (hopen d.width.toNat)
    (Text.expand [(sketchWord, directory.shown)] argument)
  have hheight := Text.count_expand_single braced_heightWord (hopen d.height.toNat)
    (Text.expand [(widthWord, Text.decimal d.width.toNat)]
      (Text.expand [(sketchWord, directory.shown)] argument))
  have hwidthAtOnce := Text.count_expand (proper_width directory d) (hopen d.width.toNat) argument
  have hproper := proper_placeholders directory d
  rw [placeholders_eq] at h hproper
  have hheightAtOnce := Text.count_expand hproper (hopen d.height.toNat) argument
  rw [← fillIn_eq, h, occurrences_heightWord] at hheight
  omega

theorem fillIn_eq_expand_iff :
    fillIn directory d argument = Text.expand (placeholders directory d) argument ↔
      ¬Arises directory argument := by
  have hwidth := Text.occurrences_le_expand (proper_width directory d) argument
  have hheight := Text.occurrences_le_expand (proper_height directory d) argument
  have harises : ¬Arises directory argument ↔
      Text.occurrences widthWord (Text.expand [(sketchWord, directory.shown)] argument) =
        Text.occurrences widthWord argument ∧
      Text.occurrences heightWord (Text.expand [(sketchWord, directory.shown)] argument) =
        Text.occurrences heightWord argument := by
    simp only [Arises, Text.replaceAll_eq_expand braced_sketchWord, List.mem_cons,
      List.not_mem_nil, or_false, exists_eq_or_imp, exists_eq_left]
    omega
  rw [harises]
  constructor
  · intro heq
    have hboth := occurrences_of_fillIn directory d argument heq
    omega
  · rintro ⟨hwidth, hheight⟩
    exact fillIn_of_occurrences directory d argument hwidth hheight

end Filling

/-- The arguments are those of one reading, but for placeholders that the directory makes. -/
theorem argumentsFor_eq_expand_iff (c : Command) (directory : Path) (d : Sketch.Dimensions) :
    argumentsFor c directory d = c.arguments.map (Text.expand (placeholders directory d)) ↔
      ∀ argument ∈ c.arguments, ¬Arises directory argument := by
  rw [argumentsFor, List.map_inj_left]
  exact forall₂_congr fun argument _ => fillIn_eq_expand_iff directory d argument

/-- A directory that is called like a placeholder. -/
theorem argumentsFor_directory_placeholder :
    let c : Command := { program := ['x'], arguments := [sketchWord] }
    let directory := Path.ofText widthWord
    let d : Sketch.Dimensions := { width := 12, height := 34 }
    argumentsFor c directory d = [['1', '2']] ∧
      c.arguments.map (Text.expand (placeholders directory d)) = [widthWord] := by
  intro c directory d
  constructor
  · decide +kernel
  · decide +kernel

end Runner
end SketchPreview
