import SketchPreview.Proofs.Files.Changes

/-!
Why a path leads nowhere.

Either nothing is there, or the way is barred before it is known what is there (`Fault.barsWay`): by
a path that is not looked up at all, by something that is no directory, or by links that are too many
to follow.  `fault_of_existing` says that there is no third reason.  Reading fails for the same
reasons, and besides where what is there cannot be read (`readText_of_existing`).
-/

namespace SketchPreview
namespace Files

/-- Whether a fault is met on the way, so that nothing is known of what a path names. -/
def Fault.barsWay : Fault → Bool
  | .nameTooLong | .notDirectory | .tooManyLinks | .nulInPath => true
  | .notFound | .permissionDenied | .alreadyExists | .isDirectory | .notText => false

namespace Tree

variable {tree : Tree} {p : Path} {fault : Fault}

theorem fault_of_walk (links : Nat) (here : Place) (steps : List Step)
    (h : tree.walk .target links here steps = .error fault) :
    fault = .notFound ∨ fault.barsWay = true := by
  match steps with
  | [] => simp [walk] at h
  | .here :: rest =>
    rw [walk] at h
    exact fault_of_walk links here rest h
  | .closing :: rest =>
    rw [walk] at h
    exact fault_of_walk links here rest h
  | .above :: rest =>
    rw [walk] at h
    exact fault_of_walk links here.tail rest h
  | .name n :: rest =>
    rw [walk_name, if_neg (by simp)] at h
    split at h
    · obtain rfl := Except.error.inj h
      decide
    rcases tree.look_cases (n :: here) with hlook | hlook | ⟨bytes, hlook⟩ | ⟨onto, hlook⟩ <;>
      simp only [hlook] at h
    · split at h
      · simp at h
      · obtain rfl := Except.error.inj h
        decide
    · exact fault_of_walk links (n :: here) rest h
    · split at h
      · simp at h
      · obtain rfl := Except.error.inj h
        decide
    · rw [if_neg (by simp)] at h
      cases links with
      | zero =>
        obtain rfl := Except.error.inj h
        decide
      | succ links =>
        dsimp only at h
        split at h
        · obtain rfl := Except.error.inj h
          decide
        · exact fault_of_walk links _ _ h
termination_by (links, steps.length)

theorem fault_of_find (h : tree.find .target p = .error fault) :
    fault = .notFound ∨ fault.barsWay = true := by
  rw [find] at h
  split at h
  · obtain rfl := Except.error.inj h
    decide
  split at h
  · obtain rfl := Except.error.inj h
    decide
  split at h
  · obtain rfl := Except.error.inj h
    decide
  · exact fault_of_walk _ _ _ h

theorem fault_of_existing (h : tree.existing p = .error fault) :
    fault = .notFound ∨ fault.barsWay = true := by
  rw [existing] at h
  cases hfind : tree.find .target p with
  | error found =>
    rw [hfind] at h
    obtain rfl := Except.error.inj h
    exact fault_of_find hfind
  | ok a =>
    -- Something was found, so that it can only have come to nothing at its place.
    left
    rw [hfind] at h
    rcases a with place | place | place | place <;>
    · dsimp only at h
      split at h
      · simp at h
      · exact (Except.error.inj h).symm

theorem readText_of_existing (h : tree.existing p = .error fault) :
    tree.readText p = .error fault := by
  rw [readText, h]

theorem readText_eq_notFound_iff :
    tree.readText p = .error .notFound ↔ tree.existing p = .error .notFound := by
  refine ⟨?_, readText_of_existing⟩
  intro h
  rw [readText] at h
  rcases hexisting : tree.existing p with fault | ⟨time⟩ | ⟨bytes, time⟩ | ⟨onto⟩ <;>
    simp only [hexisting] at h
  · rw [Except.error.inj h]
  · simp at h
  · split at h <;> simp at h
  · simp at h

/-! ## Links that stand for themselves -/

section Link

variable {here : Place} {n : List UInt8}

theorem walk_of_link_to_itself (hn : n.length ≤ longestName)
    (hlook : tree.look (n :: here) = some (.link p)) (hempty : p.bytes ≠ [])
    (habsolute : p.isAbsolute = false) (hsteps : Step.ofPath p = [.name n]) (links : Nat)
    (rest : List Step) : tree.walk .target links here (.name n :: rest) = .error .tooManyLinks := by
  induction links with
  | zero =>
    rw [walk_name, if_neg (by simp), if_neg (Nat.not_lt.mpr hn), hlook]
    rfl
  | succ links ih =>
    rw [walk_name, if_neg (by simp), if_neg (Nat.not_lt.mpr hn), hlook]
    simpa [hempty, habsolute, hsteps] using ih

theorem existing_of_link_to_itself (husable : Usable p) (habsolute : p.isAbsolute = false)
    (hn : n.length ≤ longestName) (hsteps : Step.ofPath p = [.name n])
    (hlook : tree.look (n :: tree.working) = some (.link p)) :
    tree.existing p = .error .tooManyLinks := by
  obtain ⟨hnul, hempty, hlong⟩ := husable
  have hfind : tree.find .target p = .error .tooManyLinks := by
    rw [find, if_neg (by simpa using hnul), if_neg (by simpa using hempty),
      if_neg (Nat.not_lt.mpr hlong), habsolute, hsteps]
    exact walk_of_link_to_itself hn hlook hempty habsolute hsteps mostLinks []
  rw [existing, hfind]

end Link

end Tree
end Files
end SketchPreview
