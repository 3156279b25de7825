import SketchPreview.Sketch.Literal
import SketchPreview.Sketch.Nesting

/-!
The arguments of a call, one by one, and what each of them says about the surface.  Splitting cuts
only at commas outside brackets and literals and loses nothing (`intercalate_split`).
-/

namespace SketchPreview
namespace Sketch
namespace Argument

/-- Puts a character in front of the first of some tokens. -/
def pushFirst (c : Char) : List Text → List Text
  | [] => [[c]]
  | token :: rest => (c :: token) :: rest

/-- The tokens of a text read from a state; the last one may be empty. -/
def splitFrom (n : Nesting) : Text → List Text
  | [] => [[]]
  | c :: rest =>
    if n.exposes c && c == ',' then [] :: splitFrom (n.step c) rest
    else pushFirst c (splitFrom (n.step c) rest)

/-- The tokens between the commas of some arguments, with their white space.  No text, no tokens. -/
def split (arguments : Text) : List Text :=
  if arguments.isEmpty then [] else splitFrom {} arguments

theorem splitFrom_ne_nil (n : Nesting) (t : Text) : splitFrom n t ≠ [] := by
  induction t generalizing n with
  | nil => simp [splitFrom]
  | cons c t ih =>
    simp only [splitFrom]
    split
    · simp
    · cases h : splitFrom (n.step c) t <;> simp [pushFirst]

theorem intercalate_splitFrom (n : Nesting) (t : Text) :
    [','].intercalate (splitFrom n t) = t := by
  induction t generalizing n with
  | nil => rfl
  | cons c t ih =>
    have hne := splitFrom_ne_nil (n.step c) t
    have hi := ih (n.step c)
    simp only [splitFrom]
    split
    · rename_i hc
      simp only [Bool.and_eq_true, beq_iff_eq] at hc
      cases h : splitFrom (n.step c) t with
      | nil => exact absurd h hne
      | cons a r => rw [h] at hi; simp [List.intercalate, hc.2, ← hi]
    · cases h : splitFrom (n.step c) t with
      | nil => exact absurd h hne
      | cons a r =>
        rw [h] at hi
        cases r <;> simp_all [List.intercalate, pushFirst]

theorem intercalate_split (t : Text) : [','].intercalate (split t) = t := by
  cases t with
  | nil => rfl
  | cons c t => exact intercalate_splitFrom {} (c :: t)

/-- What an argument says. -/
inductive Kind where
  | blank
  /-- The number of a display. -/
  | displayIndex
  /-- All displays at once. -/
  | fullSpan
  /-- Anything else names a renderer. -/
  | renderer
deriving DecidableEq

def fullSpanToken : Text := "SPAN".toList

def classify (token : Text) : Kind :=
  let token := Text.trim token
  if token.isEmpty then .blank
  else if Literal.isWhole Literal.integer token || Literal.isWhole Literal.number token then
    .displayIndex
  else if token == fullSpanToken then .fullSpan
  else .renderer

/-- Whether an argument of this kind has a place in a call that sizes the surface. -/
def Kind.survives : Kind → Bool
  | .renderer => true
  | .blank => false
  | .displayIndex => false
  | .fullSpan => false

/-- The first argument that names a renderer, trimmed. -/
def renderer? (arguments : Text) : Option Text :=
  ((split arguments).map Text.trim).find? fun token => (classify token).survives

end Argument
end Sketch
end SketchPreview
