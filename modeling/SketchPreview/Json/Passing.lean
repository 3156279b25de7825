import SketchPreview.Json.Reader

/-!
Passing over a value that nobody asks for.  Only the grammar is checked, so one walk over the
lexemes with the brackets that are still open is enough: a value may nest as deep as it likes, a
number may be as large as it likes.
-/

namespace SketchPreview
namespace Json

/-- What the walk looks for next, with the brackets still open, innermost first. -/
inductive Passing where
  | value (outer : List Bracket)
  /-- The lexeme behind a bracket that has just been opened. -/
  | opened (b : Bracket) (outer : List Bracket)
  /-- The key of a member, in the object before `outer`. -/
  | key (outer : List Bracket)
  | colon (outer : List Bracket)
  /-- What stands behind a value in the list or object `b`. -/
  | next (b : Bracket) (outer : List Bracket)
deriving DecidableEq

namespace Passing

/-- What follows a value when these brackets are open; nothing when none is. -/
def afterValue? : List Bracket → Option Passing
  | [] => none
  | b :: outer => some (.next b outer)

/-- Passes a literal or a word. -/
def passLiteral (l : Lexeme) (next : Option Passing) : Except Fault (Option Passing) :=
  match l.impassable with
  | some fault => .error fault
  | none => .ok next

def stepValue (outer : List Bracket) (l : Lexeme) : Except Fault (Option Passing) :=
  match l.token with
  | .opening b => .ok (some (.opened b outer))
  | .closing _ | .comma | .colon | .stray => .error (.within .expectedValue l.here)
  | .null | .boolean _ | .number _ | .text _ | .misspelt _ => passLiteral l (afterValue? outer)

def stepKey (outer : List Bracket) (l : Lexeme) : Except Fault (Option Passing) :=
  match l.token with
  | .text _ => passLiteral l (some (.colon outer))
  | _ => .error (.within .keyNotText l.here)

/-- Takes one lexeme; nothing is left to look for behind the whole value. -/
def step (s : Passing) (l : Lexeme) : Except Fault (Option Passing) :=
  match s, l.token with
  | .value outer, _ => stepValue outer l
  | .opened .list outer, .closing .list => .ok (afterValue? outer)
  | .opened .list outer, _ => stepValue (.list :: outer) l
  | .opened .object outer, .closing .object => .ok (afterValue? outer)
  | .opened .object outer, _ => stepKey outer l
  | .key outer, _ => stepKey outer l
  | .colon outer, .colon => .ok (some (.value (.object :: outer)))
  | .colon _, _ => .error (.within .expectedColon l.here)
  | .next .list outer, .comma => .ok (some (.value (.list :: outer)))
  | .next .list outer, .closing .list => .ok (afterValue? outer)
  | .next .list _, _ => .error (.within .expectedCommaOrBracket l.here)
  | .next .object outer, .comma => .ok (some (.key outer))
  | .next .object outer, .closing .object => .ok (afterValue? outer)
  | .next .object _, _ => .error (.within .expectedCommaOrBrace l.here)

/-- What is missing when the text ends here. -/
def missing : Passing → Reason
  | .value _ => .endInValue
  | .opened .list _ | .next .list _ => .endInList
  | .opened .object _ | .next .object _ | .key _ | .colon _ => .endInObject

def run (s : Passing) : Reader Unit
  | [] => .error (.atEnd s.missing)
  | l :: rest =>
    match s.step l with
    | .error fault => .error fault
    | .ok none => .ok (.first l rest ())
    | .ok (some s) =>
      match run s rest with
      | .error fault => .error fault
      | .ok r => .ok (r.behind l)

end Passing

/-- Passes over one value. -/
def Reader.skip : Reader Unit := Passing.run (.value [])

end Json
end SketchPreview
