import SketchPreview.Files.Fault
import SketchPreview.Path

/-!
A tree of files.  What stands at each place is a function, so a change says in one line what it
changes and that it changes nothing else.  Times only serve to be told apart: every change that
states none takes the next tick of a clock.

Nothing is refused: whoever works on a tree may search and change every directory, and read and write
every file.  So no operation on a tree fails with `Fault.permissionDenied`, and no property of one
tells what a refusal would leave behind.
-/

namespace SketchPreview
namespace Files

/-- The names from a place up to the root, innermost first. -/
abbrev Place := List (List UInt8)

inductive Entry where
  | directory (time : Nat)
  | file (bytes : List UInt8) (time : Nat)
  /-- A link that stands for the path `onto`. -/
  | link (onto : Path)
deriving DecidableEq

structure Tree where
  node? : Place → Option Entry
  /-- Where relative paths begin. -/
  working : Place
  /-- The time of the next change. -/
  clock : Nat

namespace Tree

/-- The tree with another entry, or none, at one place. -/
def put (tree : Tree) (place : Place) (entry : Option Entry) : Tree :=
  { tree with node? := fun q => if q = place then entry else tree.node? q }

@[simp] theorem node?_put (tree : Tree) (place q : Place) (entry : Option Entry) :
    (tree.put place entry).node? q = if q = place then entry else tree.node? q := rfl

def tick (tree : Tree) : Tree := { tree with clock := tree.clock + 1 }

@[simp] theorem node?_tick (tree : Tree) : tree.tick.node? = tree.node? := rfl

/-- Sets the time of what stands at a place. -/
def setTime (tree : Tree) (place : Place) (time : Nat) : Tree :=
  match tree.node? place with
  | some (.directory _) => tree.put place (some (.directory time))
  | some (.file bytes _) => tree.put place (some (.file bytes time))
  | _ => tree

/-- Gives the directory above a place the present time, as a change of its entries does. -/
def changeAbove (tree : Tree) (place : Place) : Tree := tree.setTime place.tail tree.clock

/-- Adds or replaces an entry of a directory. -/
def insert (tree : Tree) (place : Place) (entry : Entry) : Tree :=
  ((tree.put place (some entry)).changeAbove place).tick

/-- Takes a place away with all below it. -/
def prune (tree : Tree) (place : Place) : Tree :=
  let rest := { tree with node? := fun q => if place <:+ q then none else tree.node? q }
  (rest.changeAbove place).tick

end Tree
end Files
end SketchPreview
