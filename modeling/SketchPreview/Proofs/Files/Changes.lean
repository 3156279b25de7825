import SketchPreview.Files.Access
import SketchPreview.Proofs.Files.Walking
import SketchPreview.Proofs.Text.Utf8

/-!
What reading by path sees of a change.

Whoever finds a file behind a directory finds the directory (`isDirectory_above`).  Making
directories only adds to a tree (`makeAlong_grows`); it fails only where one of them is missing
afterwards (`makeAlong_error`), and does nothing where they are there (`makeDirectories_there`).
Writing sets one place, which the same path then leads to, or it fails where there is no file to read
(`write_cases`).
-/

namespace SketchPreview
namespace Files

/-- Whether a path is one that is looked up at all. -/
def Usable (p : Path) : Prop := 0 ∉ p.bytes ∧ p.bytes ≠ [] ∧ p.bytes.length ≤ longestPath

instance (p : Path) : Decidable (Usable p) := inferInstanceAs (Decidable (_ ∧ _ ∧ _))

namespace Tree

variable {tree after : Tree} {p q : Path}

/-- Where looking up a path begins. -/
def start (tree : Tree) (p : Path) : Place := if p.isAbsolute then [] else tree.working

/-- The bytes of the file that a path names. -/
def content? (tree : Tree) (p : Path) : Option (List UInt8) :=
  match tree.existing p with
  | .ok (.file bytes _) => some bytes
  | _ => none

theorem start_congr (h : after.working = tree.working) (p : Path) : after.start p = tree.start p := by
  rw [start, start, h]

theorem find_eq_ok_iff {aim : Aim} {a : Arrival} : tree.find aim p = .ok a ↔
    Usable p ∧ tree.Walked aim mostLinks (tree.start p) (Step.ofPath p) a := by
  rw [← walk_eq_ok_iff, find, start]
  by_cases hnul : 0 ∈ p.bytes
  · simp [Usable, hnul]
  by_cases hempty : p.bytes = []
  · simp [Usable, hempty]
  by_cases hlong : longestPath < p.bytes.length
  · simp [Usable, hnul, hempty, hlong, Nat.not_le.mpr hlong]
  · simp [Usable, hnul, hempty, hlong, Nat.not_lt.mp hlong]

theorem Grounded.start (h : tree.Grounded) (p : Path) : tree.Standing (tree.start p) := by
  rw [Tree.start]
  cases p.isAbsolute with
  | true => exact Standing.root h
  | false => exact h

/-! ## What a path names -/

/-- What there is to see where a path leads. -/
theorem look_of_find {aim : Aim} {a : Arrival} (hground : tree.Grounded)
    (h : tree.find aim p = .ok a) :
    match a with
    | .directory place => tree.look place = some (.directory 0)
    | .file place => ∃ bytes, tree.look place = some (.file bytes 0)
    | .link _ => aim = .entry
    | .vacant place => tree.look place = none ∧ tree.look place.tail = some (.directory 0) := by
  have hwalked := (find_eq_ok_iff.mp h).2
  have hstands := hwalked.standing (hground.start p)
  cases a with
  | directory place => exact hstands.self
  | file place => exact hwalked.look_file
  | link place => exact hwalked.aim_of_link
  | vacant place => exact ⟨hwalked.look_vacant, hstands.self⟩

theorem existing_cases (hground : tree.Grounded) (p : Path) :
    (∃ place time, tree.find .target p = .ok (.directory place) ∧
      tree.existing p = .ok (.directory time)) ∨
    (∃ place bytes time, tree.find .target p = .ok (.file place) ∧
      tree.look place = some (.file bytes 0) ∧ tree.existing p = .ok (.file bytes time)) ∨
    ∃ fault, tree.existing p = .error fault ∧
      ∀ a, tree.find .target p = .ok a → ∃ place, a = .vacant place := by
  rw [existing]
  cases hfind : tree.find .target p with
  | error fault => exact Or.inr (Or.inr ⟨fault, rfl, by simp⟩)
  | ok a =>
    have hlook := look_of_find hground hfind
    cases a with
    | directory place =>
      obtain ⟨time, hnode⟩ := look_eq_directory_iff.mp hlook
      exact Or.inl ⟨place, time, rfl, by simp [hnode]⟩
    | file place =>
      obtain ⟨bytes, hlook⟩ := hlook
      obtain ⟨time, hnode⟩ := look_eq_file_iff.mp hlook
      exact Or.inr (Or.inl ⟨place, bytes, time, rfl, hlook, by simp [hnode]⟩)
    | link place => simp at hlook
    | vacant place =>
      have hnode := look_eq_none_iff.mp hlook.1
      exact Or.inr (Or.inr ⟨.notFound, by simp [hnode], by simp⟩)

theorem isDirectory_iff (hground : tree.Grounded) :
    tree.isDirectory p = true ↔ ∃ place, tree.find .target p = .ok (.directory place) := by
  rcases existing_cases hground p with ⟨place, time, hfind, hexisting⟩ |
    ⟨place, bytes, time, hfind, hlook, hexisting⟩ | ⟨fault, hexisting, hfind⟩
  · simp [isDirectory, hexisting, hfind]
  · simp [isDirectory, hexisting, hfind]
  · simp only [isDirectory, hexisting, Bool.false_eq_true, false_iff, not_exists]
    intro place hplace
    simpa using hfind _ hplace

theorem content?_eq_some_iff (hground : tree.Grounded) {bytes : List UInt8} :
    tree.content? p = some bytes ↔ ∃ place, tree.find .target p = .ok (.file place) ∧
      tree.look place = some (.file bytes 0) := by
  rcases existing_cases hground p with ⟨place, time, hfind, hexisting⟩ |
    ⟨place, bytes, time, hfind, hlook, hexisting⟩ | ⟨fault, hexisting, hfind⟩
  · simp [content?, hexisting, hfind]
  · simp [content?, hexisting, hfind, hlook]
  · simp only [content?, hexisting, reduceCtorEq, false_iff, not_exists, not_and]
    intro place hplace
    simpa using hfind _ hplace

theorem readText_eq_ok_iff {t : Text} :
    tree.readText p = .ok t ↔ tree.content? p = some (Text.Utf8.encode t) := by
  rw [readText, content?]
  rcases tree.existing p with fault | ⟨time⟩ | ⟨bytes, time⟩ | ⟨onto⟩
  · simp
  · simp
  · simp only [Option.some.injEq, ← Text.Utf8.decode_eq_ok_iff]
    cases Text.Utf8.decode bytes <;> simp
  · simp

/-! ## Paths that lead by others -/

/-- Whoever comes by a directory on the way finds it, or the link to it. -/
theorem find_of_passes (aim : Aim) {a : Arrival} (h : tree.find .target p = .ok a)
    (hpasses : p.Passes q) (haim : aim ≠ .file)
    (hend : (∃ more n, p.components = q.components ++ more ++ [.name n]) ∨
      ∃ place, a = .directory place) :
    ∃ a, tree.find aim q = .ok a ∧
      ((∃ place, a = .directory place) ∨ aim = .entry ∧ ∃ place, a = .link place) := by
  obtain ⟨⟨hnul, hempty, hlong⟩, hwalked⟩ := find_eq_ok_iff.mp h
  have husable : Usable q := ⟨mt hpasses.nul_mem hnul, hpasses.bytes_ne_nil,
    Nat.le_trans hpasses.length_le hlong⟩
  have hstart : tree.start q = tree.start p := by
    rw [Tree.start, Tree.start, hpasses.isAbsolute_eq]
  obtain ⟨back, hback⟩ := hpasses.components
  have hsteps : (Step.ofPath p).filter Step.moves =
      (Step.ofPath q).filter Step.moves ++ back.filterMap Step.ofComponent? := by
    rw [Step.filter_moves_ofPath, Step.filter_moves_ofPath, ← hback, List.filterMap_append]
  have hend : back.filterMap Step.ofComponent? ≠ [] ∨ ∃ place, a = .directory place := by
    rcases hend with ⟨more, n, hp⟩ | hdirectory
    · left
      rw [← hback, List.append_assoc, List.append_cancel_left_eq] at hp
      simp [hp, Step.ofComponent?]
    · exact Or.inr hdirectory
  obtain ⟨a, hfront, ha⟩ := hwalked.front hsteps hend haim
  exact ⟨a, find_eq_ok_iff.mpr ⟨husable, by rwa [hstart]⟩, ha⟩

/-- What is found in a directory is found by way of it. -/
theorem isDirectory_above (hground : tree.Grounded) {bytes : List UInt8}
    (h : tree.content? p = some bytes) (hpasses : p.Passes q) {more : List Path.Component}
    {n : List UInt8} (hcomponents : p.components = q.components ++ more ++ [.name n]) :
    tree.isDirectory q = true := by
  obtain ⟨place, hfind, -⟩ := (content?_eq_some_iff hground).mp h
  obtain ⟨a, hfound, ⟨place, rfl⟩ | ⟨hentry, -⟩⟩ :=
    find_of_passes .target hfind hpasses (by simp) (Or.inl ⟨more, n, hcomponents⟩)
  · exact (isDirectory_iff hground).mpr ⟨place, hfound⟩
  · simp at hentry

/-! ## One entry -/

section Entry

variable {place : Place} {entry : Entry}

theorem insert_eq (hvacant : tree.look place = none)
    (hstands : tree.look place.tail = some (.directory 0)) : tree.insert place entry =
      ((tree.put place (some entry)).put place.tail (some (.directory tree.clock))).tick := by
  obtain ⟨time, hnode⟩ := look_eq_directory_iff.mp hstands
  have hne : place.tail ≠ place := by
    intro heq
    rw [heq, hvacant] at hstands
    simp at hstands
  have habove : (tree.put place (some entry)).node? place.tail = some (.directory time) := by
    rw [node?_put, if_neg hne, hnode]
  rw [insert, changeAbove, setTime, habove]
  rfl

theorem sets_insert (entry : Entry) (hvacant : tree.look place = none)
    (hstands : tree.look place.tail = some (.directory 0)) :
    tree.Sets (tree.insert place entry) place entry := by
  have hne : place ≠ place.tail := by
    intro heq
    rw [← heq, hvacant] at hstands
    simp at hstands
  rw [insert_eq hvacant hstands]
  refine ⟨rfl, ?_, ?_, ?_⟩
  · simp [look, hne]
  · intro q hq
    by_cases habove : q = place.tail
    · simpa [look, hq, habove, Entry.untimed] using hstands.symm
    · simp [look, hq, habove]
  · intro q bytes time hq hfile
    have habove : q ≠ place.tail := by
      rintro rfl
      obtain ⟨time, hnode⟩ := look_eq_directory_iff.mp hstands
      simp [hnode] at hfile
    simp [hq, habove, hfile]

theorem sets_put : tree.Sets (tree.put place (some entry)).tick place entry where
  working := rfl
  self := by simp [look]
  other := by
    intro q hq
    simp [look, hq]
  file := by
    intro q bytes time hq hfile
    simp [hq, hfile]

theorem Grows.grounded (h : tree.Grows after) (hground : tree.Grounded) : after.Grounded := by
  intro q hq
  rw [h.working] at hq
  exact h.look q _ (hground q hq)

theorem Sets.grounded (h : tree.Sets after place entry)
    (hplace : tree.look place ≠ some (.directory 0)) (hground : tree.Grounded) :
    after.Grounded := by
  intro q hq
  rw [h.working] at hq
  have hdirectory := hground q hq
  rw [h.other q, hdirectory]
  rintro rfl
  exact hplace hdirectory

end Entry

/-- What could be read is read still. -/
theorem Grows.content?_eq (h : tree.Grows after) (hground : tree.Grounded) {bytes : List UInt8}
    (hcontent : tree.content? p = some bytes) : after.content? p = some bytes := by
  obtain ⟨place, hfind, hlook⟩ := (content?_eq_some_iff hground).mp hcontent
  obtain ⟨husable, hwalked⟩ := find_eq_ok_iff.mp hfind
  have hgrown := hwalked.grown h (by simp)
  rw [← start_congr h.working] at hgrown
  exact (content?_eq_some_iff (h.grounded hground)).mpr
    ⟨place, find_eq_ok_iff.mpr ⟨husable, hgrown⟩, h.look place _ hlook⟩

/-! ## Making directories -/

theorem makeDirectory_cases (hground : tree.Grounded) (p : Path) :
    (∃ fault, tree.makeDirectory p = (.error fault, tree)) ∨
      ∃ after, tree.makeDirectory p = (.ok (), after) ∧ tree.Grows after := by
  cases hfind : tree.find .entry (withoutEnd p) with
  | error fault => exact Or.inl ⟨fault, by rw [makeDirectory, hfind]⟩
  | ok a =>
    cases a with
    | vacant place =>
      obtain ⟨hvacant, hstands⟩ := look_of_find hground hfind
      exact Or.inr ⟨_, by rw [makeDirectory, hfind], (sets_insert _ hvacant hstands).grows hvacant⟩
    | directory | file | link => exact Or.inl ⟨.alreadyExists, by rw [makeDirectory, hfind]⟩

theorem passes_withoutEnd (h : p.bytes ≠ []) : p.Passes (withoutEnd p) := by
  rw [withoutEnd]
  split
  · exact ⟨List.prefix_refl _, h, id, Nat.le_refl _⟩
  · rename_i hne
    obtain ⟨bytes⟩ := p
    let front := (bytes.reverse.dropWhile (· == Path.separator)).reverse
    let seps := (bytes.reverse.takeWhile (· == Path.separator)).reverse
    have hbytes : bytes = front ++ seps := by
      rw [← List.reverse_append, List.takeWhile_append_dropWhile, List.reverse_reverse]
    have hseps : ∀ b ∈ seps, b = Path.separator := by
      intro b hb
      simpa using List.all_eq_true.mp List.all_takeWhile b (List.mem_reverse.mp hb)
    have hfront : front ≠ [] := fun hnil => hne (List.reverse_eq_nil_iff.mp hnil)
    show (⟨bytes⟩ : Path).Passes ⟨front⟩
    rw [hbytes]
    refine ⟨⟨[], ?_⟩, hfront, List.mem_append_left seps, by simp⟩
    rw [List.append_nil, Path.components_append_separators hfront hseps]

theorem makeDirectory_there (hground : tree.Grounded) (h : tree.isDirectory p = true) :
    tree.makeDirectory p = (.error .alreadyExists, tree) := by
  obtain ⟨place, hfind⟩ := (isDirectory_iff hground).mp h
  obtain ⟨⟨-, hempty, -⟩, -⟩ := find_eq_ok_iff.mp hfind
  obtain ⟨a, hfound, ⟨place, rfl⟩ | ⟨-, place, rfl⟩⟩ :=
    find_of_passes .entry hfind (passes_withoutEnd hempty) (by simp) (Or.inr ⟨place, rfl⟩)
  · rw [makeDirectory, hfound]
  · rw [makeDirectory, hfound]

theorem orThere_snd (p : Path) (made : Except Fault Unit × Tree) : (orThere p made).2 = made.2 := by
  obtain ⟨answer, tree⟩ := made
  cases answer with
  | ok => rfl
  | error fault =>
    rw [orThere]
    split <;> rfl

theorem orThere_error {made : Except Fault Unit × Tree} {fault : Fault}
    (h : orThere p made = (.error fault, after)) : after.isDirectory p = false := by
  obtain ⟨answer, tree⟩ := made
  cases answer with
  | ok => simp [orThere] at h
  | error fault =>
    rw [orThere] at h
    split at h
    · simp at h
    · rename_i hmissing
      obtain ⟨-, rfl⟩ := Prod.mk.inj h
      exact Bool.eq_false_iff.mpr hmissing

/-- The first directory is made at once, or those behind it fail, or it is made after them. -/
theorem makeAlong_cons (hground : tree.Grounded) (p : Path) (above : List Path) :
    tree.makeAlong (p :: above) = orThere p (tree.makeDirectory p) ∨
    (∃ fault after, tree.makeAlong above = (.error fault, after) ∧
      tree.makeAlong (p :: above) = (.error fault, after)) ∨
    ∃ after, tree.makeAlong above = (.ok (), after) ∧
      tree.makeAlong (p :: above) = orThere p (after.makeDirectory p) := by
  rcases makeDirectory_cases hground p with ⟨fault, hmade⟩ | ⟨after, hmade, -⟩
  · by_cases hfault : fault = .notFound
    · subst hfault
      rcases habove : tree.makeAlong above with ⟨⟨fault⟩ | ⟨⟨⟩⟩, after⟩
      · exact Or.inr (Or.inl ⟨fault, after, rfl, by rw [makeAlong, hmade]; simp [habove]⟩)
      · exact Or.inr (Or.inr ⟨after, rfl, by rw [makeAlong, hmade]; simp [habove]⟩)
    · left
      rw [makeAlong, hmade]
      split
      · simp_all
      · rfl
  · left
    rw [makeAlong, hmade]

theorem makeAlong_grows (hground : tree.Grounded) (ps : List Path) :
    tree.Grows (tree.makeAlong ps).2 := by
  have hone : ∀ {tree : Tree} (p : Path), tree.Grounded →
      tree.Grows (orThere p (tree.makeDirectory p)).2 := by
    intro tree p hground
    rw [orThere_snd]
    rcases makeDirectory_cases hground p with ⟨fault, hmade⟩ | ⟨after, hmade, hgrows⟩
    · rw [hmade]
      exact Grows.refl tree
    · rw [hmade]
      exact hgrows
  induction ps with
  | nil => exact Grows.refl tree
  | cons p above ih =>
    rcases makeAlong_cons hground p above with hmade | ⟨fault, after, habove, hmade⟩ |
      ⟨after, habove, hmade⟩ <;> rw [hmade]
    · exact hone p hground
    · rwa [habove] at ih
    · rw [habove] at ih
      exact ih.trans (hone p (ih.grounded hground))

/-- Directories cannot be made only where one of them is missing in the end. -/
theorem makeAlong_error (hground : tree.Grounded) {ps : List Path} {fault : Fault}
    (h : tree.makeAlong ps = (.error fault, after)) : ∃ p ∈ ps, after.isDirectory p = false := by
  induction ps generalizing fault with
  | nil => simp [makeAlong] at h
  | cons p above ih =>
    rcases makeAlong_cons hground p above with hmade | ⟨fault, after, habove, hmade⟩ |
      ⟨after, habove, hmade⟩ <;> rw [hmade] at h
    · exact ⟨p, List.mem_cons_self, orThere_error h⟩
    · obtain ⟨-, rfl⟩ := Prod.mk.inj h
      obtain ⟨q, hq, hmissing⟩ := ih habove
      exact ⟨q, List.mem_cons_of_mem p hq, hmissing⟩
    · exact ⟨p, List.mem_cons_self, orThere_error h⟩

theorem makeDirectories_there (hground : tree.Grounded) (h : tree.isDirectory p = true) :
    tree.makeDirectories p = (.ok (), tree) := by
  rw [makeDirectories, Path.ancestors]
  split
  · rfl
  · rw [makeAlong, makeDirectory_there hground h]
    simp [orThere, h]

/-! ## Writing -/

/-- A file that is found can be written. -/
theorem find_to_write {place : Place} (h : tree.find .target p = .ok (.file place)) :
    tree.find .file p = .ok (.file place) := by
  obtain ⟨husable, hwalked⟩ := find_eq_ok_iff.mp h
  exact find_eq_ok_iff.mpr ⟨husable, hwalked.to_write⟩

theorem write_cases (hground : tree.Grounded) (p : Path) (bytes : List UInt8) :
    (∃ fault, tree.write p bytes = (.error fault, tree) ∧ tree.content? p = none) ∨
    ∃ place after, tree.write p bytes = (.ok (), after) ∧
      tree.look place ≠ some (.directory 0) ∧ tree.Sets after place (.file bytes tree.clock) ∧
      after.find .target p = .ok (.file place) := by
  have hread : (∀ place, tree.find .file p ≠ .ok (.file place)) → tree.content? p = none := by
    intro hfile
    rw [Option.eq_none_iff_forall_ne_some]
    intro bytes hcontent
    obtain ⟨place, hfind, -⟩ := (content?_eq_some_iff hground).mp hcontent
    exact hfile place (find_to_write hfind)
  have hfound : ∀ {a place after}, tree.find .file p = .ok a → a = .file place ∨ a = .vacant place →
      tree.Sets after place (.file bytes tree.clock) →
      after.find .target p = .ok (.file place) := by
    intro a place after hfind ha hsets
    obtain ⟨husable, hwalked⟩ := find_eq_ok_iff.mp hfind
    have hwritten := hwalked.written ha hsets
    rw [← start_congr hsets.working] at hwritten
    exact find_eq_ok_iff.mpr ⟨husable, hwritten⟩
  cases hfind : tree.find .file p with
  | error fault => exact Or.inl ⟨fault, by rw [write, hfind], hread (by simp [hfind])⟩
  | ok a =>
    have hlook := look_of_find hground hfind
    cases a with
    | directory place => exact Or.inl ⟨.isDirectory, by rw [write, hfind], hread (by simp [hfind])⟩
    | file place =>
      obtain ⟨before, hlook⟩ := hlook
      exact Or.inr ⟨place, _, by rw [write, hfind], by simp [hlook], sets_put,
        hfound hfind (Or.inl rfl) sets_put⟩
    | link place => simp at hlook
    | vacant place =>
      have hsets := sets_insert (.file bytes tree.clock) hlook.1 hlook.2
      exact Or.inr ⟨place, _, by rw [write, hfind], by simp [hlook.1], hsets,
        hfound hfind (Or.inr rfl) hsets⟩

end Tree
end Files
end SketchPreview
