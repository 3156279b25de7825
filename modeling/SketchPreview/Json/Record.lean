import SketchPreview.Json.Passing
import SketchPreview.Json.Quoted

/-!
Records.  A record is read from an object, with its fields in any order and others among them, or
from a list, with the first of its fields in their order.  Either way the fields are gathered in a
draft, which becomes the record when the closing bracket is read.

Records are written as compact JSON: without white space, the members in the order given.
-/

namespace SketchPreview
namespace Json

/-- A field of a record whose draft is a `σ`. -/
structure Field (σ : Type) where
  name : Text
  isSet : σ → Bool
  read : σ → Reader σ

/-- The field that `get` and `set` access in a draft. -/
def Field.of (name : String) (read : Reader α) (get : σ → Option α) (set : α → σ → σ) :
    Field σ where
  name := name.toList
  isSet draft := (get draft).isSome
  read draft := read.map fun a => set a draft

/-- How an `α` is read by way of a draft. -/
structure Record (σ α : Type) where
  name : String
  fields : List (Field σ)
  blank : σ
  /-- The record of a draft that was written between brackets of the given kind. -/
  finish : Bracket → σ → Except Reason α

/-- How an object goes on, in front of its first member or behind a member. -/
def Turn.inObject (first : Bool) : (input : List Lexeme) → Except Fault (Turn input)
  | [] => .error (.atEnd .endInObject)
  | l :: rest =>
    match l.token with
    | .closing .object => .ok (.closed (.first l rest))
    | token =>
      if first then
        match token with
        | .text _ => .ok (.here (l :: rest))
        | _ => .error (unexpected .keyNotText (l :: rest))
      else
        match token, rest with
        | .comma, [] => .error (.atEnd .endInValue)
        | .comma, next :: more =>
          match next.token with
          | .text _ => .ok (.behind l (next :: more))
          | .closing .object => .error (unexpected .trailingComma (next :: more))
          | _ => .error (unexpected .keyNotText (next :: more))
        | _, _ => .error (unexpected .expectedCommaOrBrace (l :: rest))

/-- How a list that may have no further element ends. -/
def Closing.ofList : (input : List Lexeme) → Except Fault (Closing input)
  | [] => .error (.atEnd .endInList)
  | l :: rest =>
    match l.token with
    | .closing .list => .ok (.first l rest)
    | token =>
      match token, rest with
      | .comma, [] => .error (.atEnd .trailingCharacters)
      | .comma, next :: more =>
        match next.token with
        | .closing .list => .error (unexpected .trailingComma (next :: more))
        | _ => .error (unexpected .trailingCharacters (next :: more))
      | _, _ => .error (unexpected .trailingCharacters (l :: rest))

namespace Record

def colon : Reader Unit
  | [] => .error (.atEnd .endInObject)
  | l :: rest =>
    match l.token with
    | .colon => .ok (.first l rest ())
    | _ => .error (unexpected .expectedColon (l :: rest))

/-- The fault of a key that comes a second time.  It is noticed behind the key, and behind the brace
too where the object ends there. -/
def duplicate (name : Text) (input : List Lexeme) : Fault :=
  match input with
  | [] => .atEnd (.duplicateField name)
  | l :: _ =>
    match l.token with
    | .closing .object => .behind (.duplicateField name) l.behind
    | _ => .behind (.duplicateField name) l.here

/-- Reads a member from its key on into a draft. -/
def member (fields : List (Field σ)) (draft : σ) : Reader σ :=
  Reader.text.andThen fun key =>
    match fields.find? (fun field => field.name == key) with
    | none => colon.andThen fun _ => Reader.skip.map fun _ => draft
    | some field => fun input =>
      if field.isSet draft then .error (duplicate key input)
      else colon.andThen (fun _ => field.read draft) input

/-- The record of a draft at its closing bracket. -/
def close (r : Record σ α) (b : Bracket) (draft : σ) {input : List Lexeme} (c : Closing input) :
    Except Fault (Read α input) :=
  match r.finish b draft with
  | .ok a => .ok ⟨a, c.rest, c.shorter⟩
  | .error reason => .error (.behind reason c.behind)

/-- Reads members up to the closing brace. -/
def members (r : Record σ α) (first : Bool) (draft : σ) (input : List Lexeme) :
    Except Fault (Read α input) :=
  match Turn.inObject first input with
  | .error fault => .error fault
  | .ok (.closed c) => r.close .object draft c
  | .ok (.further next h) =>
    match member r.fields draft next with
    | .error fault => .error fault
    | .ok m =>
      have hm : m.rest.length < input.length := Nat.lt_of_lt_of_le m.shorter h
      match r.members false m.value m.rest with
      | .error fault => .error fault
      | .ok s => .ok (s.widen (Nat.le_of_lt hm))
termination_by input.length

/-- Reads elements for these fields, in their order, up to the closing bracket. -/
def elements (r : Record σ α) : List (Field σ) → Bool → σ → Reader α
  | [], _, draft, input =>
    match Closing.ofList input with
    | .error fault => .error fault
    | .ok c => r.close .list draft c
  | field :: fields, first, draft, input =>
    match Turn.inList first input with
    | .error fault => .error fault
    | .ok (.closed c) => r.close .list draft c
    | .ok (.further next h) =>
      match field.read draft next with
      | .error fault => .error fault
      | .ok e =>
        match r.elements fields false e.value e.rest with
        | .error fault => .error fault
        | .ok s => .ok (s.widen (Nat.le_trans (Nat.le_of_lt e.shorter) h))

def read (r : Record σ α) : Reader α
  | [] => .error (.atEnd .endInValue)
  | l :: rest =>
    match l.token with
    | .opening .object =>
      match r.members true r.blank rest with
      | .error fault => .error fault
      | .ok s => .ok (s.behind l)
    | .opening .list =>
      match r.elements r.fields true r.blank rest with
      | .error fault => .error fault
      | .ok s => .ok (s.behind l)
    | _ => .error (l.refusal (.record r.name))

end Record

namespace Compact

def boolean (b : Bool) : Text := if b then "true".toList else "false".toList

def natural (n : Nat) : Text := Text.decimal n

def text (t : Text) : Text := Quoted.write t

def list (elements : List Text) : Text := '[' :: [','].intercalate elements ++ [']']

def member (name : String) (value : Text) : Text := Quoted.write name.toList ++ ':' :: value

/-- An object of members that are already written. -/
def object (members : List Text) : Text := '{' :: [','].intercalate members ++ ['}']

end Compact

end Json
end SketchPreview
