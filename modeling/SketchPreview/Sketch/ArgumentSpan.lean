import SketchPreview.Sketch.Nesting

/-!
The arguments of a call, read from behind its opening parenthesis.  The span ends at the first
parenthesis that closes outside brackets and literals, and gives up at a delimiter that cannot stand
there, so that a parenthesis opened in a comment does not swallow the code after it.
`eq_of_argumentSpan` says that what is read is the front of the text.
-/

namespace SketchPreview
namespace Sketch

/-- What was read of a list of arguments. -/
inductive ArgumentSpan where
  | closed (arguments rest : Text)
  /-- Stopped by a delimiter; `arguments` is the text before it. -/
  | stopped (arguments : Text)
  | unclosed
deriving DecidableEq

/-- Puts a character in front of the arguments. -/
def ArgumentSpan.push (c : Char) : ArgumentSpan → ArgumentSpan
  | .closed arguments rest => .closed (c :: arguments) rest
  | .stopped arguments => .stopped (c :: arguments)
  | .unclosed => .unclosed

/-- The delimiters that cannot stand in arguments outside of brackets. -/
def isStop (c : Char) : Bool := c == ';' || c == '{' || c == '}' || c == ']'

/-- Reads on from a state inside the arguments. -/
def Nesting.arguments (n : Nesting) : Text → ArgumentSpan
  | [] => .unclosed
  | c :: rest =>
    if n.exposes c && c == ')' then .closed [] rest
    else if n.exposes c && isStop c then .stopped []
    else ((n.step c).arguments rest).push c

def argumentSpan (t : Text) : ArgumentSpan := ({} : Nesting).arguments t

theorem Nesting.eq_of_arguments {n : Nesting} {t arguments rest : Text}
    (h : n.arguments t = .closed arguments rest) : t = arguments ++ ')' :: rest := by
  induction t generalizing n arguments with
  | nil => simp [Nesting.arguments] at h
  | cons c t ih =>
    simp only [Nesting.arguments] at h
    split at h
    · simp_all
    · split at h
      · simp at h
      · cases hs : (n.step c).arguments t <;> simp_all [ArgumentSpan.push]
        obtain ⟨rfl, rfl⟩ := h
        simp [ih hs]

theorem eq_of_argumentSpan {t arguments rest : Text}
    (h : argumentSpan t = .closed arguments rest) : t = arguments ++ ')' :: rest :=
  Nesting.eq_of_arguments h

/-- The byte at which the reading of arguments failed: the delimiter that stopped it, or the start
of the text when nothing closed them. -/
def ArgumentSpan.failure? : ArgumentSpan → Option Nat
  | .closed _ _ => none
  | .stopped arguments => some (Text.byteSize arguments)
  | .unclosed => some 0

end Sketch
end SketchPreview
