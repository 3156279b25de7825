import SketchPreview.Text.Basic

/-!
The numeric literals of sketch code: integers in decimal, hexadecimal and binary, and decimal
numbers with a fraction and an exponent.  Each reader takes the longest literal at the front of a
text and gives it back with the rest.
-/

namespace SketchPreview
namespace Sketch
namespace Literal

/-- Why no literal stands at the front of a text; offsets count from the front. -/
inductive Fault where
  /-- A digit is missing behind the sign of an integer. -/
  | noDigit (offset : Nat)
  /-- Neither a digit nor a point follows the sign of a number. -/
  | noNumber (offset : Nat)
  /-- No digit follows the point that begins a number. -/
  | noFraction (offset : Nat)
  /-- No digit follows the mark of an exponent.  The number in front of it does not count. -/
  | noExponent (offset : Nat)
deriving DecidableEq

def isBinaryDigit (c : Char) : Bool := c == '0' || c == '1'

/-- A sign at the front of a text, if there is one. -/
def sign : Text → Text × Text
  | '+' :: rest => (['+'], rest)
  | '-' :: rest => (['-'], rest)
  | t => ([], t)

/-- The longest front of `p`, behind what has been read before it. -/
def run (before : Text) (p : Char → Bool) (t : Text) : Text × Text :=
  (before ++ t.takeWhile p, t.dropWhile p)

/-- A digit of the base comes first; behind it underscores may stand among the digits. -/
def magnitude? : Text → Option (Text × Text)
  | '0' :: x :: d :: rest =>
    if (x == 'x' || x == 'X') && Text.isHexDigit d then
      some (run ['0', x, d] (fun c => Text.isHexDigit c || c == '_') rest)
    else if (x == 'b' || x == 'B') && isBinaryDigit d then
      some (run ['0', x, d] (fun c => isBinaryDigit c || c == '_') rest)
    else some (run ['0'] (fun c => c.isDigit || c == '_') (x :: d :: rest))
  | d :: rest => if d.isDigit then some (run [d] (fun c => c.isDigit || c == '_') rest) else none
  | [] => none

/-- The mark of a long integer, if there is one. -/
def suffix : Text → Text × Text
  | 'l' :: rest => (['l'], rest)
  | 'L' :: rest => (['L'], rest)
  | t => ([], t)

def integer (t : Text) : Except Fault (Text × Text) :=
  let (s, rest) := sign t
  match magnitude? rest with
  | none => .error (.noDigit s.length)
  | some (m, rest) =>
    let (l, rest) := suffix rest
    .ok (s ++ m ++ l, rest)

/-- The digits of a number without its exponent: a whole part with or without a fraction, or a
fraction alone, which then has at least one digit. -/
def mantissa (offset : Nat) : Text → Except Fault (Text × Text)
  | '.' :: rest =>
    match rest.takeWhile Char.isDigit with
    | [] => .error (.noFraction (offset + 1))
    | digits => .ok ('.' :: digits, rest.dropWhile Char.isDigit)
  | t =>
    match t.takeWhile Char.isDigit, t.dropWhile Char.isDigit with
    | [], _ => .error (.noNumber offset)
    | whole, '.' :: rest => .ok (run (whole ++ ['.']) Char.isDigit rest)
    | whole, rest => .ok (whole, rest)

/-- The exponent of a number, if there is one. -/
def exponent (offset : Nat) : Text → Except Fault (Text × Text)
  | e :: t =>
    if e == 'e' || e == 'E' then
      let (s, rest) := sign t
      match rest.takeWhile Char.isDigit with
      | [] => .error (.noExponent (offset + 1 + s.length))
      | digits => .ok (e :: s ++ digits, rest.dropWhile Char.isDigit)
    else .ok ([], e :: t)
  | [] => .ok ([], [])

def number (t : Text) : Except Fault (Text × Text) := do
  let (s, rest) := sign t
  let (m, rest) ← mantissa s.length rest
  let (e, rest) ← exponent (s.length + m.length) rest
  return (s ++ m ++ e, rest)

/-- Whether a reader takes a text as a whole. -/
def isWhole (read : Text → Except Fault (Text × Text)) (t : Text) : Bool :=
  match read t with
  | .ok (_, []) => true
  | _ => false

end Literal
end Sketch
end SketchPreview
