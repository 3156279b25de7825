import SketchPreview.Text.Basic

/-!
How deep a scan of sketch text stands in brackets and whether it stands in a literal.  The state
moves by `step`, and `exposes` tells which characters the scan gets to see; both depend on the text
only through the state, so a scan may be cut anywhere and continued from the state reached there
(`run_append`).
-/

namespace SketchPreview
namespace Sketch

/-- Whether a scan reads code or stands inside a string or character literal. -/
inductive Mode where
  | code
  /-- Inside a literal that `quote` closes. -/
  | literal (quote : Char)
  /-- Inside a literal, behind a backslash. -/
  | escape (quote : Char)
deriving DecidableEq

structure Nesting where
  depth : Nat := 0
  mode : Mode := .code
deriving DecidableEq

namespace Nesting

/-- Whether a character is seen by a scan that minds only what is outside brackets and literals.
Opening brackets and quotes are not, since what they open hides them; a brace that opens at depth
zero is, because a block cannot stand in a list of arguments. -/
def exposes (n : Nesting) (c : Char) : Bool :=
  match n.mode with
  | .code => n.depth == 0 && !(c == '"' || c == '\'' || c == '(' || c == '[')
  | .literal _ => false
  | .escape _ => false

/-- The state behind a character.  A literal ends with its quote or with the line; any closing
bracket closes any opening one. -/
def step (n : Nesting) (c : Char) : Nesting :=
  match n.mode with
  | .escape quote => { n with mode := .literal quote }
  | .literal quote =>
    if c == '\\' then { n with mode := .escape quote }
    else if c == quote || c == '\n' then { n with mode := .code }
    else n
  | .code =>
    if c == '"' || c == '\'' then { n with mode := .literal c }
    else if c == '(' || c == '[' || (c == '{' && n.depth != 0) then { n with depth := n.depth + 1 }
    else if c == ')' || c == ']' || c == '}' then { n with depth := n.depth - 1 }
    else n

/-- The state behind a text. -/
def run (n : Nesting) (t : Text) : Nesting := t.foldl step n

@[simp] theorem run_nil (n : Nesting) : n.run [] = n := rfl

@[simp] theorem run_cons (n : Nesting) (c : Char) (t : Text) :
    n.run (c :: t) = (n.step c).run t := rfl

theorem run_append (n : Nesting) (a b : Text) : n.run (a ++ b) = (n.run a).run b := by
  simp [run]

/-- The characters of a text that are exposed, each at its place. -/
def exposed (n : Nesting) : Text → List (Option Char)
  | [] => []
  | c :: rest => (if n.exposes c then some c else none) :: (n.step c).exposed rest

end Nesting
end Sketch
end SketchPreview
