import SketchPreview.Text.Pieces

/-!
The segments of a URI's path.  Those that mean this place or the one above are worked off while the
path is read, and may be written with their dots escaped.
-/

namespace SketchPreview
namespace Uri
namespace Segments

/-- The text behind a dot, escaped or not. -/
def behindDot? : List Char → Option (List Char)
  | '.' :: rest => some rest
  | '%' :: '2' :: e :: rest => if e == 'e' || e == 'E' then some rest else none
  | _ => none

def isHere (segment : List Char) : Bool := behindDot? segment == some []

def isAbove (segment : List Char) : Bool := (behindDot? segment).bind behindDot? == some []

/-- A letter and a colon, as the drives of some systems are named. -/
def isDrive : List Char → Bool
  | letter :: mark :: rest =>
    letter.isAlpha && (mark == ':' || mark == '|') && (rest.isEmpty || rest.head? == some '\\')
  | _ => false

/-- Takes the innermost segment away.  A drive stays, and nothing lies above the root. -/
def pop : List (List Char) → List (List Char)
  | [] => []
  | top :: outer => if isDrive top then top :: outer else outer

/-- The segments that are left, outermost first.  `kept` holds those before, innermost first.  What
is worked off at the end leaves the path of a directory, with an empty segment last. -/
def resolve (kept : List (List Char)) : List (List Char) → List (List Char)
  | [] => kept.reverse
  | segment :: rest =>
    if isAbove segment then resolve (if rest.isEmpty then [] :: pop kept else pop kept) rest
    else if isHere segment then resolve (if rest.isEmpty then [] :: kept else kept) rest
    else resolve (segment :: kept) rest

/-- The path with its segments worked off, from behind its first slash. -/
def normalize (t : List Char) : List Char :=
  '/' :: ['/'].intercalate (resolve [] (Text.pieces '/' t))

end Segments
end Uri
end SketchPreview
