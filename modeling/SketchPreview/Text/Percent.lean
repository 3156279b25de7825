import SketchPreview.Text.Utf8

/-!
Percent encoding.  `encode` keeps the unreserved characters, so what it writes contains no character
that a URI gives a meaning to except `%`; `decode` leaves a `%` alone that two hexadecimal digits do
not follow.
-/

namespace SketchPreview
namespace Text
namespace Percent

/-- Letters, digits and the four marks that no URI component gives a meaning to. -/
def isUnreserved (b : UInt8) : Bool :=
  (0x41 ≤ b && b ≤ 0x5A) || (0x61 ≤ b && b ≤ 0x7A) || (0x30 ≤ b && b ≤ 0x39) ||
    b == 0x2D || b == 0x5F || b == 0x2E || b == 0x7E

/-- The upper-case hexadecimal digit of a number below sixteen. -/
def hexDigit (n : Nat) : Char := Char.ofNat (if n < 10 then 0x30 + n else 0x37 + n)

def encodeByte (b : UInt8) : Text :=
  if isUnreserved b then [Char.ofNat b.toNat]
  else ['%', hexDigit (b.toNat / 16), hexDigit (b.toNat % 16)]

def encode (t : Text) : Text := (Utf8.encode t).flatMap encodeByte

/-- The value of a hexadecimal digit of either case. -/
def hexValue? (b : UInt8) : Option UInt8 :=
  if 0x30 ≤ b && b ≤ 0x39 then some (b - 0x30)
  else if 0x41 ≤ b && b ≤ 0x46 then some (b - 0x37)
  else if 0x61 ≤ b && b ≤ 0x66 then some (b - 0x57)
  else none

def decodeBytes : List UInt8 → List UInt8
  | 0x25 :: a :: b :: rest =>
    match hexValue? a, hexValue? b with
    | some high, some low => (high * 16 + low) :: decodeBytes rest
    | _, _ => 0x25 :: decodeBytes (a :: b :: rest)
  | b :: rest => b :: decodeBytes rest
  | [] => []

/-- Fails when the bytes that come out are not UTF-8; the index in the fault counts those bytes. -/
def decode (t : Text) : Except Utf8.Fault Text := Utf8.decode (decodeBytes (Utf8.encode t))

end Percent
end Text
end SketchPreview
