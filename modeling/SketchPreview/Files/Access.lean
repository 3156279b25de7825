import SketchPreview.Files.Walk

/-!
Reading and changing files by path.  A change returns the tree even when it fails, for what it did
before it failed stays.
-/

namespace SketchPreview
namespace Files

/-- What is compared to notice that a file has changed. -/
structure Stamp where
  time : Nat
  length : Nat
deriving DecidableEq

namespace Tree

/-- What a path names, with links followed; nothing vacant. -/
def existing (tree : Tree) (p : Path) : Except Fault Entry :=
  match tree.find .target p with
  | .error fault => .error fault
  | .ok (.directory place) | .ok (.file place) | .ok (.link place) | .ok (.vacant place) =>
    match tree.node? place with
    | some entry => .ok entry
    | none => .error .notFound

def isDirectory (tree : Tree) (p : Path) : Bool :=
  match tree.existing p with
  | .ok (.directory _) => true
  | _ => false

/-- The length that directories are shown with. -/
def directoryLength : Nat := 4096

def stamp? (tree : Tree) (p : Path) : Option Stamp :=
  match tree.existing p with
  | .ok (.file bytes time) => some ⟨time, bytes.length⟩
  | .ok (.directory time) => some ⟨time, directoryLength⟩
  | _ => none

def readText (tree : Tree) (p : Path) : Except Fault Text :=
  match tree.existing p with
  | .error fault => .error fault
  | .ok (.file bytes _) =>
    match Text.Utf8.decode bytes with
    | .ok t => .ok t
    | .error _ => .error .notText
  | .ok _ => .error .isDirectory

/-- Puts bytes into a file, which is made if there is none. -/
def write (tree : Tree) (p : Path) (bytes : List UInt8) : Except Fault Unit × Tree :=
  match tree.find .file p with
  | .error fault => (.error fault, tree)
  | .ok (.directory _) => (.error .isDirectory, tree)
  | .ok (.file place) | .ok (.link place) =>
    (.ok (), (tree.put place (some (.file bytes tree.clock))).tick)
  | .ok (.vacant place) => (.ok (), tree.insert place (.file bytes tree.clock))

/-- The path without the separators at its end. -/
def withoutEnd (p : Path) : Path :=
  match p.bytes.reverse.dropWhile (· == Path.separator) with
  | [] => p
  | bytes => ⟨bytes.reverse⟩

/-- Makes one directory. -/
def makeDirectory (tree : Tree) (p : Path) : Except Fault Unit × Tree :=
  match tree.find .entry (withoutEnd p) with
  | .error fault => (.error fault, tree)
  | .ok (.vacant place) => (.ok (), tree.insert place (.directory tree.clock))
  | .ok _ => (.error .alreadyExists, tree)

/-- A directory that could not be made because it is there already will do. -/
def orThere (p : Path) : Except Fault Unit × Tree → Except Fault Unit × Tree
  | (.error fault, tree) => if tree.isDirectory p then (.ok (), tree) else (.error fault, tree)
  | made => made

/-- Makes the first of these directories, and if something above it is missing those behind it
before. -/
def makeAlong (tree : Tree) : List Path → Except Fault Unit × Tree
  | [] => (.ok (), tree)
  | p :: above =>
    match tree.makeDirectory p with
    | (.error .notFound, tree) =>
      match tree.makeAlong above with
      | (.ok (), tree) => orThere p (tree.makeDirectory p)
      | failed => failed
    | tried => orThere p tried

/-- Makes a directory and those above it that are missing. -/
def makeDirectories (tree : Tree) (p : Path) : Except Fault Unit × Tree :=
  tree.makeAlong p.ancestors

/-- Takes away what a path names: a file, a link, or a directory with all in it. -/
def remove (tree : Tree) (p : Path) : Except Fault Unit × Tree :=
  match tree.find .entry p with
  | .error fault => (.error fault, tree)
  | .ok (.vacant _) => (.error .notFound, tree)
  | .ok (.directory place) | .ok (.file place) | .ok (.link place) => (.ok (), tree.prune place)

/-- Makes a link. -/
def makeLink (tree : Tree) (p : Path) (onto : Path) : Except Fault Unit × Tree :=
  match tree.find .entry p with
  | .error fault => (.error fault, tree)
  | .ok (.vacant place) => (.ok (), tree.insert place (.link onto))
  | .ok _ => (.error .alreadyExists, tree)

/-- Sets the time of what a path names. -/
def touch (tree : Tree) (p : Path) (time : Nat) : Except Fault Unit × Tree :=
  match tree.find .target p with
  | .error fault => (.error fault, tree)
  | .ok (.vacant _) => (.error .notFound, tree)
  | .ok (.directory place) | .ok (.file place) | .ok (.link place) =>
    (.ok (), tree.setTime place time)

end Tree
end Files
end SketchPreview
