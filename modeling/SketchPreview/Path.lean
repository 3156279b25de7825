import SketchPreview.Text.Pieces
import SketchPreview.Text.Utf8

/-!
Paths.  A path is kept byte for byte as it was written, for it is shown that way and need not be
UTF-8; what it names depends only on its components.
-/

namespace SketchPreview

structure Path where
  bytes : List UInt8
deriving DecidableEq, Inhabited

namespace Path

def separator : UInt8 := 0x2F

def dot : UInt8 := 0x2E

inductive Component where
  | root
  /-- A dot in front of a relative path. -/
  | current
  | parent
  | name (bytes : List UInt8)
deriving DecidableEq

/-- The component between two separators, if there is one.  A dot is none: it changes nothing. -/
def Component.ofPiece? (piece : List UInt8) : Option Component :=
  if piece == [] || piece == [dot] then none
  else if piece == [dot, dot] then some .parent
  else some (.name piece)

def Component.piece : Component → List UInt8
  | .root => []
  | .current => [dot]
  | .parent => [dot, dot]
  | .name n => n

def isAbsolute (p : Path) : Bool := p.bytes.head? == some separator

/-- The component in front of all pieces. -/
def leading (p : Path) : List Component :=
  if p.isAbsolute then [.root]
  else if (Text.pieces separator p.bytes).head? == some [dot] then [.current]
  else []

def components (p : Path) : List Component :=
  p.leading ++ (Text.pieces separator p.bytes).filterMap Component.ofPiece?

/-- Whether two paths are the same but for repeated separators and dots. -/
def Same (p q : Path) : Prop := p.components = q.components

instance (p q : Path) : Decidable (Same p q) := inferInstanceAs (Decidable (_ = _))

/-- The name of the entry that a path ends in. -/
def fileName? (p : Path) : Option (List UInt8) :=
  match p.components.getLast? with
  | some (.name n) => some n
  | _ => none

/-- A file name cut at its last dot.  A dot in front does not count. -/
def cutExtension (name : List UInt8) : List UInt8 × Option (List UInt8) :=
  match name.reverse.dropWhile (· != dot) with
  | _ :: b :: stem => ((b :: stem).reverse, some (name.reverse.takeWhile (· != dot)).reverse)
  | _ => (name, none)

def stem? (p : Path) : Option (List UInt8) := p.fileName?.map fun n => (cutExtension n).1

def extension? (p : Path) : Option (List UInt8) := p.fileName?.bind fun n => (cutExtension n).2

/-- The path of the entry `name` in the directory `p`. -/
def child (p : Path) (name : List UInt8) : Path :=
  if p.bytes.isEmpty || p.bytes.getLast? == some separator then ⟨p.bytes ++ name⟩
  else ⟨p.bytes ++ separator :: name⟩

/-- The path that shows its components and nothing more. -/
def ofComponents : List Component → Path
  | [] => ⟨[]⟩
  | .root :: rest => ⟨separator :: [separator].intercalate (rest.map Component.piece)⟩
  | components => ⟨[separator].intercalate (components.map Component.piece)⟩

/-- The paths of the components given, innermost first, and of those above them. -/
def chain : List Component → List Path
  | [] => []
  | c :: above => ofComponents (c :: above).reverse :: chain above

/-- A path and those above it, innermost first. -/
def ancestors (p : Path) : List Path :=
  match p.components.reverse with
  | [] => []
  | _ :: above => p :: chain above

/-! ## Paths as text -/

def ofText (t : Text) : Path := ⟨Text.Utf8.encode t⟩

def ofString (s : String) : Path := ofText s.toList

/-- The text of a path, with U+FFFD for what is not UTF-8. -/
def shown (p : Path) : Text := Text.Utf8.decodeLossy p.bytes

def text? (p : Path) : Option Text := (Text.Utf8.decode p.bytes).toOption

end Path
end SketchPreview
