import SketchPreview.Text.Basic

/-!
UTF-8 between texts and bytes.  One step, `next`, takes a character off the front of the bytes or
says why there is none; reading strictly (`decode`), reading with replacement (`decodeLossy`) and
the position of a fault all follow from it.
-/

namespace SketchPreview
namespace Text
namespace Utf8

def encode (t : Text) : List UInt8 := t.flatMap String.utf8EncodeChar

/-- What stands at the front of some bytes. -/
inductive Front where
  | nothing
  | char (c : Char) (rest : List UInt8)
  /-- The first `width` bytes begin no character, whatever follows them. -/
  | invalid (width : Nat) (rest : List UInt8)
  /-- The bytes end inside a character. -/
  | incomplete
deriving DecidableEq

/-- Whether `b` can follow the first byte `a` of a character of two bytes or more.  The narrowed
ranges leave out overlong forms, surrogates and what lies beyond U+10FFFF. -/
def follows (a b : UInt8) : Bool :=
  if a == 0xE0 then 0xA0 ≤ b && b ≤ 0xBF
  else if a == 0xED then 0x80 ≤ b && b ≤ 0x9F
  else if a == 0xF0 then 0x90 ≤ b && b ≤ 0xBF
  else if a == 0xF4 then 0x80 ≤ b && b ≤ 0x8F
  else 0x80 ≤ b && b ≤ 0xBF

def isTail (b : UInt8) : Bool := 0x80 ≤ b && b ≤ 0xBF

/-- The character of a first byte, less its marker bits, and the bytes after it. -/
def assemble (lead : Nat) (tails : List UInt8) : Char :=
  Char.ofNat (tails.foldl (fun n b => n * 64 + (b.toNat - 0x80)) lead)

def next : List UInt8 → Front
  | [] => .nothing
  | a :: r =>
    if a < 0x80 then .char (Char.ofNat a.toNat) r
    else if a < 0xC2 || 0xF4 < a then .invalid 1 r
    else
      match r with
      | [] => .incomplete
      | b :: r₁ =>
        if !follows a b then .invalid 1 r
        else if a < 0xE0 then .char (assemble (a.toNat - 0xC0) [b]) r₁
        else
          match r₁ with
          | [] => .incomplete
          | c :: r₂ =>
            if !isTail c then .invalid 2 r₁
            else if a < 0xF0 then .char (assemble (a.toNat - 0xE0) [b, c]) r₂
            else
              match r₂ with
              | [] => .incomplete
              | d :: r₃ =>
                if !isTail d then .invalid 3 r₂
                else .char (assemble (a.toNat - 0xF0) [b, c, d]) r₃

/-- The bytes behind the front. -/
def Front.rest : Front → List UInt8
  | .nothing => []
  | .char _ rest => rest
  | .invalid _ rest => rest
  | .incomplete => []

theorem length_rest_next_lt (a : UInt8) (r : List UInt8) :
    (next (a :: r)).rest.length < (a :: r).length := by
  simp only [next]
  repeat' split
  all_goals simp only [Front.rest, List.length_cons, List.length_nil]; omega

theorem length_lt_of_next_char {bytes rest : List UInt8} {c : Char}
    (h : next bytes = .char c rest) : rest.length < bytes.length := by
  cases bytes with
  | nil => simp [next] at h
  | cons a r => simpa only [h, Front.rest] using length_rest_next_lt a r

theorem length_lt_of_next_invalid {bytes rest : List UInt8} {width : Nat}
    (h : next bytes = .invalid width rest) : rest.length < bytes.length := by
  cases bytes with
  | nil => simp [next] at h
  | cons a r => simpa only [h, Front.rest] using length_rest_next_lt a r

/-- Why bytes are not UTF-8, and at which byte. -/
inductive Fault where
  | invalid (width index : Nat)
  | incomplete (index : Nat)
deriving DecidableEq

def Fault.message : Fault → String
  | .invalid width index =>
    s!"invalid utf-8 sequence of {width} bytes from index {index}"
  | .incomplete index => s!"incomplete utf-8 byte sequence from index {index}"

/-- Reads bytes that stand `index` bytes behind the start of the whole. -/
def decodeFrom (index : Nat) (bytes : List UInt8) : Except Fault Text :=
  match h : next bytes with
  | .nothing => .ok []
  | .char c rest =>
    have := length_lt_of_next_char h
    (decodeFrom (index + c.utf8Size) rest).map (c :: ·)
  | .invalid width _ => .error (.invalid width index)
  | .incomplete => .error (.incomplete index)
termination_by bytes.length

def decode (bytes : List UInt8) : Except Fault Text := decodeFrom 0 bytes

/-- Reads bytes with U+FFFD for each sequence that is no character. -/
def decodeLossy (bytes : List UInt8) : Text :=
  match h : next bytes with
  | .nothing => []
  | .char c rest =>
    have := length_lt_of_next_char h
    c :: decodeLossy rest
  | .invalid _ rest =>
    have := length_lt_of_next_invalid h
    '\uFFFD' :: decodeLossy rest
  | .incomplete => ['\uFFFD']
termination_by bytes.length

end Utf8
end Text
end SketchPreview
