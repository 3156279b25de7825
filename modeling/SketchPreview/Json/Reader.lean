import SketchPreview.Json.Lexeme

/-!
Readers of values.  A reader takes lexemes off the front and returns the others together with the
fact that they are fewer, so a loop over readers ends without a bound of its own.  A value of the
wrong type is a fault behind it; a lexeme that begins no value is one at its first byte.
-/

namespace SketchPreview
namespace Json

/-- A value read off the front of `input`, and the lexemes behind it. -/
structure Read (α : Type) (input : List Lexeme) where
  value : α
  rest : List Lexeme
  shorter : rest.length < input.length

abbrev Reader (α : Type) := (input : List Lexeme) → Except Fault (Read α input)

/-- A value that is the first lexeme alone. -/
def Read.first (l : Lexeme) (rest : List Lexeme) (a : α) : Read α (l :: rest) :=
  ⟨a, rest, Nat.lt_succ_self _⟩

/-- The same value as one read off the front of a longer input. -/
def Read.widen {a b : List Lexeme} (h : a.length ≤ b.length) (r : Read α a) : Read α b :=
  ⟨r.value, r.rest, Nat.lt_of_lt_of_le r.shorter h⟩

/-- The same value with one more lexeme in front. -/
def Read.behind {rest : List Lexeme} (l : Lexeme) (r : Read α rest) : Read α (l :: rest) :=
  r.widen (Nat.le_succ _)

namespace Reader

def map (f : α → β) (read : Reader α) : Reader β := fun input =>
  match read input with
  | .error fault => .error fault
  | .ok r => .ok ⟨f r.value, r.rest, r.shorter⟩

/-- Reads on behind a value, in a way that may depend on it. -/
def andThen (read : Reader α) (next : α → Reader β) : Reader β := fun input =>
  match read input with
  | .error fault => .error fault
  | .ok r =>
    match next r.value r.rest with
    | .error fault => .error fault
    | .ok s => .ok (s.widen (Nat.le_of_lt r.shorter))

end Reader

/-! ## Values of one lexeme -/

/-- What a token is as a value, if it is one that was read without fault. -/
def Token.found? : Token → Except Fault (Option Found)
  | .opening .list => .ok (some .list)
  | .opening .object => .ok (some .object)
  | .null => .ok (some .null)
  | .boolean b => .ok (some (.boolean b))
  | .number (.ok (.natural n)) => .ok (some (.integer n))
  | .number (.ok (.negative n)) => .ok (some (.integer (-n)))
  | .number (.ok (.real bits)) => .ok (some (.real bits))
  | .number (.error fault) => .error fault
  | .text (.ok t) => .ok (some (.text t))
  | .text (.error fault) => .error fault
  | .misspelt fault => .error fault
  | .closing _ | .comma | .colon | .stray => .ok none

/-- The fault of a lexeme where another shape was expected.  The bracket that opens a list or an
object is only looked at, every other value is read. -/
def Lexeme.refusal (expected : Shape) (l : Lexeme) : Fault :=
  match l.token.found? with
  | .error fault => fault
  | .ok none => .within .expectedValue l.here
  | .ok (some .list) => .behind (.wrongType .list expected) l.here
  | .ok (some .object) => .behind (.wrongType .object expected) l.here
  | .ok (some found) => .behind (.wrongType found expected) l.behind

namespace Reader

/-- Reads a value of one lexeme.  `accept` says which tokens are of the expected shape, and why one
that is may still be refused. -/
def single (expected : Shape) (accept : Token → Option (Except Reason α)) : Reader α
  | [] => .error (.atEnd .endInValue)
  | l :: rest =>
    match accept l.token with
    | some (.ok a) => .ok (.first l rest a)
    | some (.error reason) => .error (.behind reason l.behind)
    | none => .error (l.refusal expected)

def boolean : Reader Bool :=
  single .boolean fun
    | .boolean b => some (.ok b)
    | _ => none

/-- Text, in a place that is described as `expected`. -/
def textAs (expected : Shape) : Reader Text :=
  single expected fun
    | .text (.ok t) => some (.ok t)
    | _ => none

def text : Reader Text := textAs .text

/-- An integer below `bound`. -/
def natural (expected : Shape) (bound : Nat) : Reader { n : Nat // n < bound } :=
  single expected fun
    | .number (.ok (.natural n)) =>
      some (if h : n < bound then .ok ⟨n, h⟩ else .error (.wrongInteger n expected))
    | .number (.ok (.negative n)) => some (.error (.wrongInteger (-n) expected))
    | _ => none

def word32 : Reader UInt32 := (natural .word32 UInt32.size).map fun n => UInt32.ofNatLT n.1 n.2

def word64 : Reader UInt64 := (natural .word64 UInt64.size).map fun n => UInt64.ofNatLT n.1 n.2

/-- A value that may be `null` instead. -/
def optional (read : Reader α) : Reader (Option α)
  | [] => read.map some []
  | l :: rest =>
    match l.token with
    | .null => .ok (.first l rest none)
    | _ => read.map some (l :: rest)

end Reader

/-! ## Lists -/

/-- The end of a list or an object: the text and the lexemes behind the closing bracket. -/
structure Closing (input : List Lexeme) where
  behind : Text
  rest : List Lexeme
  shorter : rest.length < input.length

/-- The end at the first lexeme. -/
def Closing.first (l : Lexeme) (rest : List Lexeme) : Closing (l :: rest) :=
  ⟨l.behind, rest, Nat.lt_succ_self _⟩

/-- How a list or an object goes on: it ends, or something more begins. -/
inductive Turn (input : List Lexeme) where
  | closed (c : Closing input)
  | further (next : List Lexeme) (shorter : next.length ≤ input.length)

/-- Something more begins at the first lexeme. -/
def Turn.here (input : List Lexeme) : Turn input := .further input (Nat.le_refl _)

/-- Something more begins behind the first lexeme. -/
def Turn.behind (l : Lexeme) (rest : List Lexeme) : Turn (l :: rest) :=
  .further rest (Nat.le_succ _)

/-- How a list goes on, in front of its first element or behind an element. -/
def Turn.inList (first : Bool) : (input : List Lexeme) → Except Fault (Turn input)
  | [] => .error (.atEnd .endInList)
  | l :: rest =>
    match l.token with
    | .closing .list => .ok (.closed (.first l rest))
    | token =>
      if first then .ok (.here (l :: rest))
      else
        match token, rest with
        | .comma, [] => .error (.atEnd .endInValue)
        | .comma, next :: more =>
          match next.token with
          | .closing .list => .error (unexpected .trailingComma (next :: more))
          | _ => .ok (.behind l (next :: more))
        | _, _ => .error (unexpected .expectedCommaOrBracket (l :: rest))

/-- The elements of a list from the place given, with all up to the closing bracket. -/
def Reader.elements (read : Reader α) (first : Bool) (input : List Lexeme) :
    Except Fault (Read (List α) input) :=
  match Turn.inList first input with
  | .error fault => .error fault
  | .ok (.closed c) => .ok ⟨[], c.rest, c.shorter⟩
  | .ok (.further next h) =>
    match read next with
    | .error fault => .error fault
    | .ok r =>
      have hr : r.rest.length < input.length := Nat.lt_of_lt_of_le r.shorter h
      match Reader.elements read false r.rest with
      | .error fault => .error fault
      | .ok more => .ok ⟨r.value :: more.value, more.rest, Nat.lt_trans more.shorter hr⟩
termination_by input.length

def Reader.list (read : Reader α) : Reader (List α)
  | [] => .error (.atEnd .endInValue)
  | l :: rest =>
    match l.token with
    | .opening .list =>
      match Reader.elements read true rest with
      | .error fault => .error fault
      | .ok r => .ok (r.behind l)
    | _ => .error (l.refusal .list)

/-- Reads a text that is one value and nothing more. -/
def Reader.document (read : Reader α) (t : Text) : Except Fault α :=
  match read (Lexeme.ofText t) with
  | .error fault => .error fault
  | .ok r =>
    if r.rest.isEmpty then .ok r.value else .error (unexpected .trailingCharacters r.rest)

end Json
end SketchPreview
