import SketchPreview.Text.Basic
import SketchPreview.Text.Pieces

/-!
The numeric address of a host, as it stands between square brackets: eight groups of up to four
hexadecimal digits, of which a run may be left out once, and of which the last two may be written as
four decimal numbers.
-/

namespace SketchPreview
namespace Uri
namespace Address

/-- A number up to 255 without leading zeros. -/
def isByte (digits : Text) : Bool :=
  !digits.isEmpty && digits.all Char.isDigit && (digits.length == 1 || digits.head? != some '0') &&
    Text.decimalValue digits ≤ 255

def isDotted (t : Text) : Bool :=
  (Text.pieces '.' t).length == 4 && (Text.pieces '.' t).all isByte

/-- Whether a text, read from the front of a group, completes an address.  `count` groups have been
read, where the run that was left out counts as one. -/
def completes (leftOut : Bool) (count : Nat) : Text → Bool
  | [] => leftOut || count == 8
  | c :: rest =>
    if count == 8 then false
    else if c == ':' then !leftOut && completes true (count + 1) rest
    else
      let digits := ((c :: rest).take 4).takeWhile Text.isHexDigit
      match h : (c :: rest).drop digits.length with
      | [] => leftOut || count + 1 == 8
      | '.' :: _ =>
        !digits.isEmpty && count ≤ 6 && isDotted (c :: rest) && (leftOut || count + 2 == 8)
      | ':' :: more =>
        have : more.length < rest.length + 1 := by
          have := congrArg List.length h
          simp only [List.length_drop, List.length_cons] at this
          omega
        !more.isEmpty && completes leftOut (count + 1) more
      | _ => false
termination_by t => t.length

def isValid : Text → Bool
  | ':' :: ':' :: rest => completes true 1 rest
  | ':' :: _ => false
  | t => t.length ≥ 2 && completes false 0 t

end Address
end Uri
end SketchPreview
