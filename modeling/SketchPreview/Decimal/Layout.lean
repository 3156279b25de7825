import SketchPreview.Decimal.Shortest

/-!
Writing a double-precision number: the shortest digits that read back, positional in the middle
range and with an exponent outside of it.
-/

namespace SketchPreview
namespace Decimal

/-- How digits and exponent are put on the page. -/
structure Layout where
  /-- The scientific exponents written positionally. -/
  least : Int
  beyond : Int
  /-- What stands for the fraction of a whole number. -/
  wholeFraction : List Char
  /-- The mark of a positive exponent. -/
  positiveMark : List Char
  negativeMark : List Char

/-- Positional from 0.00001 to just below ten to the sixteenth, always with a fraction; otherwise
with a signed exponent and no fraction that is zero. -/
def report : Layout where
  least := -5
  beyond := 16
  wholeFraction := ".0".toList
  positiveMark := "e+".toList
  negativeMark := "e-".toList

def zeros (n : Nat) : List Char := List.replicate n '0'

def Layout.write (l : Layout) (s : Shortest) : List Char :=
  let digits := Nat.toDigits 10 s.digits
  let scientific := s.exponent + digits.length - 1
  if l.least ≤ scientific && scientific < l.beyond then
    if 0 ≤ s.exponent then digits ++ zeros s.exponent.toNat ++ l.wholeFraction
    else if 0 ≤ scientific then
      digits.take (scientific.toNat + 1) ++ '.' :: digits.drop (scientific.toNat + 1)
    else ['0', '.'] ++ zeros (-scientific - 1).toNat ++ digits
  else
    let fraction := if digits.length ≤ 1 then [] else '.' :: digits.drop 1
    let mark := if 0 ≤ scientific then l.positiveMark else l.negativeMark
    digits.take 1 ++ fraction ++ mark ++ Nat.toDigits 10 scientific.natAbs

/-- The number that the 64 bits of a finite double stand for, without its sign. -/
def magnitude? (bits : UInt64) : Option Binary :=
  let field := (bits >>> 52 &&& 0x7FF).toNat
  let fraction := (bits &&& 0xFFFFFFFFFFFFF).toNat
  if field == 0 then
    if fraction == 0 then none else some ⟨fraction, -1074, false⟩
  else some ⟨0x10000000000000 + fraction, field - 1075, fraction == 0 && field != 1⟩

/-- The text of a finite double, given by its bits.  Zero keeps its sign. -/
def Layout.double (l : Layout) (bits : UInt64) : List Char :=
  let sign := if bits >>> 63 == 1 then ['-'] else []
  match magnitude? bits with
  | some b => sign ++ l.write b.shortest
  | none => sign ++ '0' :: l.wholeFraction

end Decimal
end SketchPreview
