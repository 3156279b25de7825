import SketchPreview.Files.Access

/-!
What a host tells a preview, and the watcher of one file, which looks at it from time to time and
tells of its changes.
-/

namespace SketchPreview

inductive Event where
  | fileChanged
  | bufferSaved
  | bufferReloaded
  | bufferStoppedChanging
  | pathChanged
deriving DecidableEq

/-- Whether an event renders.  With live update settled edits do, and saving adds nothing to them;
without it only saving and reloading do.  A changed file always does, a changed path never. -/
def Event.triggersRender (liveUpdate : Bool) : Event → Bool
  | .fileChanged => true
  | .bufferSaved | .bufferReloaded => !liveUpdate
  | .bufferStoppedChanging => liveUpdate
  | .pathChanged => false

structure Watcher where
  path : Path
  /-- What the file looked like last, unless it was missing. -/
  last : Option Files.Stamp
deriving DecidableEq

namespace Watcher

/-- Begins to watch; the file as it is now counts as seen. -/
def start (tree : Files.Tree) (path : Path) : Watcher := ⟨path, tree.stamp? path⟩

/-- Looks at the file.  One that has changed or come back is reported, one that has gone is not. -/
def poll (tree : Files.Tree) (w : Watcher) : Option Event × Watcher :=
  let now := tree.stamp? w.path
  (if now.isSome && now != w.last then some .fileChanged else none, { w with last := now })

end Watcher
end SketchPreview
