import SketchPreview.Json.Number
import SketchPreview.Json.Quoted

/-!
A JSON text as a list of lexemes.  Readers of values work on that list, where white space is gone
and a bracket, a word or a whole literal is one step.  A literal that a reader may refuse and
another may pass over keeps both answers; nothing follows a lexeme that nobody can pass.
-/

namespace SketchPreview
namespace Json

inductive Bracket where
  | list
  | object
deriving DecidableEq

inductive Token where
  | opening (b : Bracket)
  | closing (b : Bracket)
  | comma
  | colon
  | null
  | boolean (b : Bool)
  | number (value : Except Fault Number)
  | text (value : Except Fault Text)
  /-- A word that begins like one of the three and goes on differently. -/
  | misspelt (f : Fault)
  /-- A character that begins no token. -/
  | stray

structure Lexeme where
  token : Token
  /-- The fault of passing the lexeme over. -/
  impassable : Option Fault
  /-- The text from the beginning of the lexeme. -/
  here : Text
  /-- The text behind it. -/
  behind : Text

namespace Lexeme

def isSpace (c : Char) : Bool := c == ' ' || c == '\n' || c == '\t' || c == '\r'

/-- The text behind the rest of a word. -/
def finishWord : Text → Text → Except Fault Text
  | [], t => .ok t
  | _ :: _, [] => .error (.atEnd .endInValue)
  | e :: word, c :: t =>
    if c == e then finishWord word t else .error (.within .expectedWord (c :: t))

theorem length_finishWord {word t rest : Text} (h : finishWord word t = .ok rest) :
    rest.length ≤ t.length := by
  induction word generalizing t with
  | nil => simp_all [finishWord]
  | cons e word ih =>
    cases t with
    | nil => simp [finishWord] at h
    | cons c t =>
      simp only [finishWord] at h
      split at h
      · exact Nat.le_succ_of_le (ih h)
      · simp at h

/-- What stands at the front of a text: a token with the text behind it, or one that nobody can pass
and why. -/
inductive Front where
  | passable (token : Token) (behind : Text)
  | impassable (token : Token) (f : Fault)

def word (token : Token) (letters : Text) (t : Text) : Front :=
  match finishWord letters t with
  | .ok rest => .passable token rest
  | .error f => .impassable (.misspelt f) f

/-- A number; at the end of the text a reader misses a value, where one that passes over sees a
broken number. -/
def number (t : Text) : Front :=
  match Number.read t with
  | .ok (value, rest) => .passable (.number value) rest
  | .error place =>
    let reason := if place.isEmpty then Reason.endInValue else .invalidNumber
    .impassable (.number (.error (.within reason place))) (.within .invalidNumber place)

/-- A literal, from behind its opening quote. -/
def literal (t : Text) : Front :=
  let value := (Quoted.read t).map (·.1)
  match Quoted.skip t with
  | .ok rest => .passable (.text value) rest
  | .error f => .impassable (.text value) f

/-- What a character begins. -/
inductive Start where
  /-- A token of this one character. -/
  | mark (token : Token)
  | quote
  /-- A word, which goes on with the letters given. -/
  | word (token : Token) (letters : Text)
  | numeral
  | nothing

def start (c : Char) : Start :=
  if c == '{' then .mark (.opening .object)
  else if c == '}' then .mark (.closing .object)
  else if c == '[' then .mark (.opening .list)
  else if c == ']' then .mark (.closing .list)
  else if c == ',' then .mark .comma
  else if c == ':' then .mark .colon
  else if c == '"' then .quote
  else if c == 'n' then .word .null "ull".toList
  else if c == 't' then .word (.boolean true) "rue".toList
  else if c == 'f' then .word (.boolean false) "alse".toList
  else if c == '-' || c.isDigit then .numeral
  else .nothing

def front (c : Char) (rest : Text) : Front :=
  match start c with
  | .mark token => .passable token rest
  | .quote => literal rest
  | .word token letters => word token letters rest
  | .numeral => number (c :: rest)
  | .nothing => .impassable .stray (.within .expectedValue (c :: rest))

theorem length_word {token token' : Token} {letters t behind : Text}
    (h : word token letters t = .passable token' behind) : behind.length ≤ t.length := by
  unfold word at h
  split at h
  · rename_i hf
    simp only [Front.passable.injEq] at h
    exact h.2 ▸ length_finishWord hf
  · simp at h

theorem length_number {token : Token} {t behind : Text}
    (h : number t = .passable token behind) : behind.length < t.length := by
  unfold number at h
  split at h
  · rename_i hn
    simp only [Front.passable.injEq] at h
    exact h.2 ▸ Number.length_read hn
  · simp at h

theorem length_literal {token : Token} {t behind : Text}
    (h : literal t = .passable token behind) : behind.length < t.length := by
  unfold literal at h
  split at h
  · rename_i hs
    simp only [Front.passable.injEq] at h
    exact h.2 ▸ Quoted.length_skip hs
  · simp at h

theorem length_front {c : Char} {rest behind : Text} {token : Token}
    (h : front c rest = .passable token behind) : behind.length ≤ rest.length := by
  unfold front at h
  split at h
  · simp only [Front.passable.injEq] at h
    exact h.2 ▸ Nat.le_refl _
  · exact Nat.le_of_lt (length_literal h)
  · exact length_word h
  · exact Nat.le_of_lt_succ (length_number h)
  · simp at h

/-- The lexemes of a text, up to the first that nobody can pass. -/
def ofText (t : Text) : List Lexeme :=
  match h : t.dropWhile isSpace with
  | [] => []
  | c :: rest =>
    match hf : front c rest with
    | .impassable token f => [⟨token, some f, c :: rest, rest⟩]
    | .passable token behind =>
      have : behind.length < t.length := by
        have hl := length_front hf
        have hd := (List.dropWhile_sublist isSpace (l := t)).length_le
        rw [h, List.length_cons] at hd
        omega
      ⟨token, none, c :: rest, behind⟩ :: ofText behind
termination_by t.length

end Lexeme

/-! ## Faults at lexemes -/

/-- The text from the next lexeme on. -/
def hereOf : List Lexeme → Text
  | [] => []
  | l :: _ => l.here

/-- A fault that the next lexeme shows without being read. -/
def unexpected (reason : Reason) (input : List Lexeme) : Fault := .within reason (hereOf input)

end Json
end SketchPreview
