import SketchPreview.Sketch.Argument
import SketchPreview.Sketch.Call
import SketchPreview.Sketch.Dimensions

/-!
Making a sketch run in a window of a given size.  A call that asks for the whole screen becomes one
that sizes the surface, and calls that set the pixel density, which a preview cannot honour, are
removed.  All other text stays as it is.
-/

namespace SketchPreview
namespace Sketch

def fullScreen : Text := "fullScreen".toList

def pixelDensity : Text := "pixelDensity".toList

/-- The call that sizes the surface. -/
def sizeCall (d : Dimensions) (renderer : Option Text) : Text :=
  "size(".toList ++ Text.decimal d.width.toNat ++ ", ".toList ++ Text.decimal d.height.toNat ++
    (match renderer with
      | some r => ", ".toList ++ r
      | none => []) ++
    [')']

/-- What a call for the whole screen becomes: its renderer is kept, the display is not. -/
def Call.sized (d : Dimensions) (c : Call) : Text :=
  if c.hasNoArguments then sizeCall d none else sizeCall d (Argument.renderer? c.arguments)

/-- The source with a size in place of every call for the whole screen. -/
def sizeFullScreen (d : Dimensions) (source : Text) : Text :=
  Call.replaceAll fullScreen (Call.sized d) source

/-- The source without its calls that set the pixel density. -/
def dropPixelDensity (source : Text) : Text :=
  Call.replaceAll pixelDensity (fun _ => []) source

/-- The source as it runs in a window of the given size. -/
def windowed (d : Dimensions) (source : Text) : Text :=
  sizeFullScreen d (dropPixelDensity source)

end Sketch
end SketchPreview
