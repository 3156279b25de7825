import Mathlib.Data.List.Basic
import SketchPreview.Files.Tree

/-!
What can be seen of a tree.

The times of entries serve to be told apart and nothing else, so a tree is looked at without them
(`look`).  A change either adds directories (`Grows`) or puts one entry at a place (`Sets`); where a
directory is put at a place that was empty it does both (`Sets.grows`).
-/

namespace SketchPreview
namespace Files

/-- An entry without its time. -/
def Entry.untimed : Entry → Entry
  | .directory _ => .directory 0
  | .file bytes _ => .file bytes 0
  | .link onto => .link onto

namespace Tree

/-- What stands at a place, times aside. -/
def look (tree : Tree) (place : Place) : Option Entry := (tree.node? place).map Entry.untimed

section Look

variable {tree : Tree} {q : Place}

theorem look_eq_none_iff : tree.look q = none ↔ tree.node? q = none := Option.map_eq_none_iff

theorem look_eq_directory_iff :
    tree.look q = some (.directory 0) ↔ ∃ time, tree.node? q = some (.directory time) := by
  rw [look]
  rcases tree.node? q with _ | _ | _ | _ <;> simp [Entry.untimed]

theorem look_eq_file_iff {bytes : List UInt8} :
    tree.look q = some (.file bytes 0) ↔ ∃ time, tree.node? q = some (.file bytes time) := by
  rw [look]
  rcases tree.node? q with _ | _ | _ | _ <;> simp [Entry.untimed]

/-- What can be seen at a place. -/
theorem look_cases (tree : Tree) (q : Place) : tree.look q = none ∨
    tree.look q = some (.directory 0) ∨ (∃ bytes, tree.look q = some (.file bytes 0)) ∨
      ∃ onto, tree.look q = some (.link onto) := by
  rw [look]
  rcases tree.node? q with _ | time | ⟨bytes, time⟩ | onto <;> simp [Entry.untimed]

end Look

/-- Whether the places from one up to the root are all directories. -/
def Standing (tree : Tree) (here : Place) : Prop :=
  ∀ q, q <:+ here → tree.look q = some (.directory 0)

/-- Whether there is a directory where relative paths begin. -/
def Grounded (tree : Tree) : Prop := tree.Standing tree.working

section Standing

variable {tree : Tree} {here : Place}

theorem Standing.self (h : tree.Standing here) : tree.look here = some (.directory 0) :=
  h here (List.suffix_refl here)

theorem Standing.root (h : tree.Standing here) : tree.Standing [] := by
  intro q hq
  exact h q (hq.trans (List.nil_suffix))

theorem Standing.tail (h : tree.Standing here) : tree.Standing here.tail := by
  intro q hq
  exact h q (hq.trans (List.tail_suffix here))

theorem Standing.cons {n : List UInt8} (h : tree.Standing here)
    (hlook : tree.look (n :: here) = some (.directory 0)) : tree.Standing (n :: here) := by
  intro q hq
  rcases List.suffix_cons_iff.mp hq with rfl | hq
  · exact hlook
  · exact h q hq

end Standing

/-! ## Trees before and after a change -/

/-- All that was in a tree is in it still, and only directories have come to it. -/
structure Grows (before after : Tree) : Prop where
  working : after.working = before.working
  look : ∀ q entry, before.look q = some entry → after.look q = some entry
  made : ∀ q, before.look q = none → after.look q = none ∨ after.look q = some (.directory 0)
  file : ∀ q bytes time, before.node? q = some (.file bytes time) →
    after.node? q = some (.file bytes time)

/-- An entry has been put at a place, and nothing else has changed but the times of directories. -/
structure Sets (before after : Tree) (place : Place) (entry : Entry) : Prop where
  working : after.working = before.working
  self : after.look place = some entry.untimed
  other : ∀ q, q ≠ place → after.look q = before.look q
  file : ∀ q bytes time, q ≠ place → before.node? q = some (.file bytes time) →
    after.node? q = some (.file bytes time)

theorem Grows.refl (tree : Tree) : tree.Grows tree :=
  ⟨rfl, fun _ _ h => h, fun _ h => Or.inl h, fun _ _ _ h => h⟩

theorem Grows.trans {first second third : Tree} (h : first.Grows second)
    (h' : second.Grows third) : first.Grows third where
  working := h'.working.trans h.working
  look := fun q entry hlook => h'.look q entry (h.look q entry hlook)
  made := by
    intro q hnone
    rcases h.made q hnone with hnone | hdirectory
    · exact h'.made q hnone
    · exact Or.inr (h'.look q _ hdirectory)
  file := fun q bytes time hfile => h'.file q bytes time (h.file q bytes time hfile)

theorem Sets.grows {before after : Tree} {place : Place} {time : Nat}
    (h : before.Sets after place (.directory time)) (hvacant : before.look place = none) :
    before.Grows after where
  working := h.working
  made := by
    intro q hnone
    by_cases hq : q = place
    · subst hq
      exact Or.inr h.self
    · rw [h.other q hq]
      exact Or.inl hnone
  look := by
    intro q entry hlook
    rw [h.other q, hlook]
    rintro rfl
    simp [hvacant] at hlook
  file := by
    intro q bytes time hfile
    apply h.file q bytes time _ hfile
    rintro rfl
    simp [look_eq_none_iff.mp hvacant] at hfile

end Tree
end Files
end SketchPreview
