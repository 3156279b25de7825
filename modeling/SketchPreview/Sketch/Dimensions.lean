import SketchPreview.Text.Basic

/-!
The size of the surface that a sketch draws into.
-/

namespace SketchPreview
namespace Sketch

/-- Width and height in pixels.  Neither is zero, so no sketch is ever asked to draw into an empty
surface. -/
structure Dimensions where
  width : UInt32
  height : UInt32
  width_pos : 0 < width := by decide
  height_pos : 0 < height := by decide
deriving DecidableEq

namespace Dimensions

def of? (width height : UInt32) : Option Dimensions :=
  if h : 0 < width ∧ 0 < height then some ⟨width, height, h.1, h.2⟩ else none

theorem of?_eq_none_iff {width height : UInt32} :
    of? width height = none ↔ width = 0 ∨ height = 0 := by
  simp only [of?, dite_eq_right_iff, reduceCtorEq, imp_false, Classical.not_and_iff_not_or_not]
  simp only [UInt32.lt_iff_toNat_lt, ← UInt32.toNat_inj]
  simp

/-- The surface of a preview whose host states no size. -/
def standard : Dimensions := { width := 800, height := 600 }

instance : Inhabited Dimensions := ⟨standard⟩

end Dimensions

/-- A size as width and height in decimal with an `x` between, whether it is a surface or not. -/
def sizeText (width height : UInt32) : String := s!"{width.toNat}x{height.toNat}"

def Dimensions.display (d : Dimensions) : String := sizeText d.width d.height

end Sketch
end SketchPreview
