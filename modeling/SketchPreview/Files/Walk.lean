import SketchPreview.Files.Tree

/-!
Finding the place that a path names.  The walk takes one step after another from the directory it is
in; a link is replaced by the steps of its path, which may happen only so often.
-/

namespace SketchPreview
namespace Files

inductive Step where
  /-- Stays in the directory. -/
  | here
  /-- A separator at the end of a path, which asks for a directory. -/
  | closing
  | above
  | name (bytes : List UInt8)
deriving DecidableEq

/-- The steps of the pieces between separators. -/
def Step.ofPieces : List (List UInt8) → List Step
  | [] => []
  | [[]] => [.closing]
  | piece :: rest =>
    if piece.isEmpty then ofPieces rest
    else if piece == [Path.dot] then .here :: ofPieces rest
    else if piece == [Path.dot, Path.dot] then .above :: ofPieces rest
    else .name piece :: ofPieces rest

def Step.ofPath (p : Path) : List Step := ofPieces (Text.pieces Path.separator p.bytes)

/-- Where a walk ends. -/
inductive Arrival where
  | directory (place : Place)
  | file (place : Place)
  /-- A link that was not to be followed. -/
  | link (place : Place)
  /-- Nothing is there, but an entry could be made. -/
  | vacant (place : Place)
deriving DecidableEq

/-- What a path is looked up for. -/
inductive Aim where
  /-- What it names.  A link at the end is followed. -/
  | target
  /-- The entry it ends in, be that a link. -/
  | entry
  /-- A file to write, which is made if it is missing.  A link at the end is followed. -/
  | file
deriving DecidableEq

def longestName : Nat := 255

def mostLinks : Nat := 40

def longestPath : Nat := 4095

/-- Walks on from the directory `here`, with so many links left to follow.  A link in front of
further steps is always followed, one at the end unless the entry itself is wanted.  No file is made
where a directory is asked for, whatever is there. -/
def Tree.walk (tree : Tree) (aim : Aim) (links : Nat) (here : Place) :
    List Step → Except Fault Arrival
  | [] => .ok (.directory here)
  | .here :: rest | .closing :: rest => tree.walk aim links here rest
  | .above :: rest => tree.walk aim links here.tail rest
  | .name n :: rest =>
    if aim = .file ∧ rest = [.closing] then .error .isDirectory
    else if longestName < n.length then .error .nameTooLong
    else
      match tree.node? (n :: here) with
      | none => if rest.isEmpty then .ok (.vacant (n :: here)) else .error .notFound
      | some (.directory _) => tree.walk aim links (n :: here) rest
      | some (.file _ _) => if rest.isEmpty then .ok (.file (n :: here)) else .error .notDirectory
      | some (.link onto) =>
        if aim = .entry ∧ rest = [] then .ok (.link (n :: here))
        else
          match links with
          | 0 => .error .tooManyLinks
          | links + 1 =>
            if onto.bytes.isEmpty then .error .notFound
            else
              tree.walk aim links (if onto.isAbsolute then [] else here)
                (Step.ofPath onto ++ rest)
termination_by steps => (links, steps.length)

/-- Finds what a path names. -/
def Tree.find (tree : Tree) (aim : Aim) (p : Path) : Except Fault Arrival :=
  if p.bytes.contains 0 then .error .nulInPath
  else if p.bytes.isEmpty then .error .notFound
  else if longestPath < p.bytes.length then .error .nameTooLong
  else
    tree.walk aim mostLinks (if p.isAbsolute then [] else tree.working) (Step.ofPath p)

end Files
end SketchPreview
