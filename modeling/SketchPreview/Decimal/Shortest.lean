/-!
The shortest decimal that reads back as a given binary floating-point number.  The number and the
interval of reals that round to it are kept as exact fractions; the decimal grids are tried from
coarse to fine, so the first grid with a point in the interval gives the fewest digits.
-/

namespace SketchPreview
namespace Decimal

/-- A positive binary number `significand * 2 ^ exponent`. -/
structure Binary where
  significand : Nat
  exponent : Int
  /-- Whether the next smaller number is only half as far away as the next larger one. -/
  narrowBelow : Bool

/-- A decimal number `digits * 10 ^ exponent`. -/
structure Shortest where
  digits : Nat
  exponent : Int
deriving DecidableEq

namespace Binary

/-- Both sides of a comparison between `n * 2 ^ (exponent - 2)` and `d * 10 ^ e`, as naturals. -/
def scale (b : Binary) (e : Int) (n d : Nat) : Nat × Nat :=
  let two := b.exponent - 2
  (n * Nat.pow 2 two.toNat * Nat.pow 10 (-e).toNat, d * Nat.pow 10 e.toNat * Nat.pow 2 (-two).toNat)

/-- Whether `d * 10 ^ e` rounds to the number.  The ends of the interval belong to it when the
significand is even. -/
def hasDecimal (b : Binary) (e : Int) (d : Nat) : Bool :=
  let (low, point) := b.scale e (4 * b.significand - if b.narrowBelow then 1 else 2) d
  let (high, _) := b.scale e (4 * b.significand + 2) d
  if b.significand % 2 == 0 then low ≤ point && point ≤ high else low < point && point < high

/-- The point of the grid `10 ^ e` that is in the interval and nearest to the number. -/
def onGrid? (b : Binary) (e : Int) : Option Nat :=
  let (x, unit) := b.scale e (4 * b.significand) 1
  let below := x / unit
  let twice := 2 * (x % unit)
  let (nearer, other) :=
    if twice < unit || (twice == unit && below % 2 == 0) then (below, below + 1)
    else (below + 1, below)
  if b.hasDecimal e nearer then some nearer
  else if b.hasDecimal e other then some other
  else none

/-- Tries `steps` grids from `10 ^ e` downwards. -/
def firstGrid? (b : Binary) (e : Int) : Nat → Option Shortest
  | 0 => none
  | steps + 1 =>
    match b.onGrid? e with
    | some d => some ⟨d, e⟩
    | none => b.firstGrid? (e - 1) steps

/-- The search spans the grids of all finite doubles, from beyond the largest to the finest that the
smallest one needs. -/
def shortest (b : Binary) : Shortest := (b.firstGrid? 309 650).getD ⟨b.significand, b.exponent⟩

end Binary
end Decimal
end SketchPreview
