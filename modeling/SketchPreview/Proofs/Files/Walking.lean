import SketchPreview.Files.Walk
import SketchPreview.Proofs.Files.Looking
import SketchPreview.Proofs.Path.Ancestors

/-!
What a walk through a tree depends on.

`Walked` says how a walk comes to its end, one constructor for each way it can go on, and
`walk_eq_ok_iff` that the walk does just that.  It sees what stands at the places it comes by, but
no times.  So it ends where it ended before when all that it came by is still there
(`Walked.grown`); where a file was written, a walk for writing is followed by one that finds the
file (`Walked.written`); and a walk that went on from a place ends there, in a directory, when it
is asked for less (`Walked.front`).
-/

namespace SketchPreview
namespace Files

/-- Whether a step leads anywhere. -/
def Step.moves : Step → Bool
  | .here | .closing => false
  | .above | .name _ => true

/-- The directory where a walk stood in the end. -/
def Arrival.ground : Arrival → Place
  | .directory place => place
  | .file place | .link place | .vacant place => place.tail

/-- Whether a name may be taken when these steps are still ahead. -/
def Step.Takable (aim : Aim) (n : List UInt8) (rest : List Step) : Prop :=
  ¬(aim = .file ∧ rest = [.closing]) ∧ n.length ≤ longestName

namespace Tree

/-- How a walk comes to its end. -/
inductive Walked (tree : Tree) (aim : Aim) : Nat → Place → List Step → Arrival → Prop where
  | done {links here} : Walked tree aim links here [] (.directory here)
  | here {links here rest a} : Walked tree aim links here rest a →
      Walked tree aim links here (.here :: rest) a
  | closing {links here rest a} : Walked tree aim links here rest a →
      Walked tree aim links here (.closing :: rest) a
  | above {links here rest a} : Walked tree aim links here.tail rest a →
      Walked tree aim links here (.above :: rest) a
  | vacant {links here n} : Step.Takable aim n [] → tree.look (n :: here) = none →
      Walked tree aim links here [.name n] (.vacant (n :: here))
  | file {links here n bytes} : Step.Takable aim n [] →
      tree.look (n :: here) = some (.file bytes 0) →
      Walked tree aim links here [.name n] (.file (n :: here))
  | link {links here n onto} : Step.Takable aim n [] →
      tree.look (n :: here) = some (.link onto) → aim = .entry →
      Walked tree aim links here [.name n] (.link (n :: here))
  | into {links here n rest a} : Step.Takable aim n rest →
      tree.look (n :: here) = some (.directory 0) → Walked tree aim links (n :: here) rest a →
      Walked tree aim links here (.name n :: rest) a
  | through {links here n rest onto a} : Step.Takable aim n rest →
      tree.look (n :: here) = some (.link onto) → ¬(aim = .entry ∧ rest = []) →
      onto.bytes ≠ [] →
      Walked tree aim links (if onto.isAbsolute then [] else here) (Step.ofPath onto ++ rest) a →
      Walked tree aim (links + 1) here (.name n :: rest) a

theorem walk_name (tree : Tree) (aim : Aim) (links : Nat) (here : Place) (n : List UInt8)
    (rest : List Step) : tree.walk aim links here (.name n :: rest) =
    if aim = .file ∧ rest = [.closing] then .error .isDirectory
    else if longestName < n.length then .error .nameTooLong
    else
      match tree.look (n :: here) with
      | none => if rest.isEmpty then .ok (.vacant (n :: here)) else .error .notFound
      | some (.directory _) => tree.walk aim links (n :: here) rest
      | some (.file _ _) => if rest.isEmpty then .ok (.file (n :: here)) else .error .notDirectory
      | some (.link onto) =>
        if aim = .entry ∧ rest = [] then .ok (.link (n :: here))
        else
          match links with
          | 0 => .error .tooManyLinks
          | links + 1 =>
            if onto.bytes.isEmpty then .error .notFound
            else
              tree.walk aim links (if onto.isAbsolute then [] else here)
                (Step.ofPath onto ++ rest) := by
  rw [walk, look]
  rcases tree.node? (n :: here) with _ | time | ⟨bytes, time⟩ | onto <;> rfl

theorem Walked.walk_eq {tree : Tree} {aim : Aim} {links : Nat} {here : Place} {steps : List Step}
    {a : Arrival} (h : tree.Walked aim links here steps a) :
    tree.walk aim links here steps = .ok a := by
  induction h with
  | done => rw [walk]
  | here _ ih | closing _ ih | above _ ih =>
    rw [walk]
    exact ih
  | vacant htake hlook | file htake hlook =>
    rw [walk_name, if_neg htake.1, if_neg (Nat.not_lt.mpr htake.2), hlook]
    rfl
  | link htake hlook haim =>
    rw [walk_name, if_neg htake.1, if_neg (Nat.not_lt.mpr htake.2), hlook]
    exact if_pos ⟨haim, rfl⟩
  | into htake hlook _ ih =>
    rw [walk_name, if_neg htake.1, if_neg (Nat.not_lt.mpr htake.2), hlook]
    exact ih
  | through htake hlook hfollow honto _ ih =>
    rw [walk_name, if_neg htake.1, if_neg (Nat.not_lt.mpr htake.2), hlook]
    simpa [hfollow, honto] using ih

theorem walked_of_walk {tree : Tree} {aim : Aim} {a : Arrival} (links : Nat) (here : Place)
    (steps : List Step) (h : tree.walk aim links here steps = .ok a) :
    tree.Walked aim links here steps a := by
  match steps with
  | [] =>
    rw [walk, Except.ok.injEq] at h
    subst h
    exact .done
  | .here :: rest =>
    rw [walk] at h
    exact .here (walked_of_walk links here rest h)
  | .closing :: rest =>
    rw [walk] at h
    exact .closing (walked_of_walk links here rest h)
  | .above :: rest =>
    rw [walk] at h
    exact .above (walked_of_walk links here.tail rest h)
  | .name n :: rest =>
    rw [walk_name] at h
    split at h
    · simp at h
    rename_i hclosing
    split at h
    · simp at h
    rename_i hlong
    have htake : Step.Takable aim n rest := ⟨hclosing, Nat.not_lt.mp hlong⟩
    rcases tree.look_cases (n :: here) with hlook | hlook | ⟨bytes, hlook⟩ | ⟨onto, hlook⟩ <;>
      simp only [hlook] at h
    · by_cases hrest : rest = []
      · subst hrest
        obtain rfl : .vacant (n :: here) = a := by simpa using h
        exact .vacant htake hlook
      · simp [hrest] at h
    · exact .into htake hlook (walked_of_walk links (n :: here) rest h)
    · by_cases hrest : rest = []
      · subst hrest
        obtain rfl : .file (n :: here) = a := by simpa using h
        exact .file htake hlook
      · simp [hrest] at h
    · split at h
      · rename_i hentry
        obtain ⟨haim, rfl⟩ := hentry
        obtain rfl : .link (n :: here) = a := by simpa using h
        exact .link htake hlook haim
      rename_i hfollow
      obtain ⟨fewer, hlinks, honto, hon⟩ : ∃ fewer, links = fewer + 1 ∧ onto.bytes ≠ [] ∧
          tree.walk aim fewer (if onto.isAbsolute then [] else here) (Step.ofPath onto ++ rest) =
            .ok a := by
        cases links with
        | zero => simp at h
        | succ fewer =>
          by_cases honto : onto.bytes = []
          · simp [honto] at h
          · exact ⟨fewer, rfl, honto, by simpa [honto] using h⟩
      have hwalked := walked_of_walk fewer _ _ hon
      rw [hlinks]
      exact .through htake hlook hfollow honto hwalked
termination_by (links, steps.length)

theorem walk_eq_ok_iff {tree : Tree} {aim : Aim} {links : Nat} {here : Place} {steps : List Step}
    {a : Arrival} :
    tree.walk aim links here steps = .ok a ↔ tree.Walked aim links here steps a :=
  ⟨walked_of_walk links here steps, Walked.walk_eq⟩

namespace Walked

variable {before after tree : Tree} {aim : Aim} {links : Nat} {here place : Place}
  {steps : List Step} {a : Arrival}

/-! ### What stands at the end -/

theorem look_file (h : tree.Walked aim links here steps (.file place)) :
    ∃ bytes, tree.look place = some (.file bytes 0) := by
  generalize ha : Arrival.file place = a at h
  induction h with
  | done | vacant | link => simp at ha
  | here _ ih | closing _ ih | above _ ih | into _ _ _ ih | through _ _ _ _ _ ih => exact ih ha
  | file _ hlook =>
    obtain rfl := Arrival.file.inj ha
    exact ⟨_, hlook⟩

theorem look_vacant (h : tree.Walked aim links here steps (.vacant place)) :
    tree.look place = none := by
  generalize ha : Arrival.vacant place = a at h
  induction h with
  | done | file | link => simp at ha
  | here _ ih | closing _ ih | above _ ih | into _ _ _ ih | through _ _ _ _ _ ih => exact ih ha
  | vacant _ hlook =>
    obtain rfl := Arrival.vacant.inj ha
    exact hlook

theorem aim_of_link (h : tree.Walked aim links here steps (.link place)) : aim = .entry := by
  generalize ha : Arrival.link place = a at h
  induction h with
  | done | vacant | file => simp at ha
  | here _ ih | closing _ ih | above _ ih | into _ _ _ ih | through _ _ _ _ _ ih => exact ih ha
  | link _ _ haim => exact haim

/-- A walk that is to end in a directory finds no file. -/
theorem not_file_closing (front : List Step) :
    ¬tree.Walked aim links here (front ++ [.closing]) (.file place) := by
  intro h
  generalize hsteps : front ++ [.closing] = steps at h
  generalize ha : Arrival.file place = a at h
  -- The separator stays at the end of what is ahead, also when a link brings its own steps.
  induction h generalizing front with
  | done => simp at hsteps
  | vacant | link => simp at ha
  | file => simp [List.append_eq_singleton_iff] at hsteps
  | closing h ih =>
    cases front with
    | nil =>
      obtain ⟨-, rfl⟩ := List.cons.inj hsteps
      subst ha
      cases h
    | cons step front => exact ih front (List.cons.inj hsteps).2 ha
  | here _ ih | above _ ih | into _ _ _ ih =>
    cases front with
    | nil => simp at hsteps
    | cons step front => exact ih front (List.cons.inj hsteps).2 ha
  | @through _ _ _ _ onto _ _ _ _ _ _ ih =>
    cases front with
    | nil => simp at hsteps
    | cons step front =>
      have hrest : front ++ [.closing] = _ := (List.cons.inj hsteps).2
      exact ih (Step.ofPath onto ++ front) (by rw [List.append_assoc, hrest]) ha

/-- A file that is there can be written. -/
theorem to_write (h : tree.Walked .target links here steps (.file place)) :
    tree.Walked .file links here steps (.file place) := by
  generalize ha : Arrival.file place = a at h ⊢
  induction h with
  | done | vacant | link => simp at ha
  | here _ ih => exact .here (ih ha)
  | closing _ ih => exact .closing (ih ha)
  | above _ ih => exact .above (ih ha)
  | file htake hlook => exact .file ⟨by simp, htake.2⟩ hlook
  | into htake hlook h ih =>
    refine .into ⟨?_, htake.2⟩ hlook (ih ha)
    rintro ⟨-, rfl⟩
    subst ha
    exact not_file_closing [] h
  | through htake hlook _ honto h ih =>
    refine .through ⟨?_, htake.2⟩ hlook (by simp) honto (ih ha)
    rintro ⟨-, rfl⟩
    subst ha
    exact not_file_closing _ h

/-! ### The same walk through a tree that has changed -/

theorem grown (h : before.Walked aim links here steps a) (hgrows : before.Grows after)
    (ha : ∀ place, a ≠ .vacant place) : after.Walked aim links here steps a := by
  induction h with
  | done => exact .done
  | here _ ih => exact .here (ih ha)
  | closing _ ih => exact .closing (ih ha)
  | above _ ih => exact .above (ih ha)
  | vacant => exact absurd rfl (ha _)
  | file htake hlook => exact .file htake (hgrows.look _ _ hlook)
  | link htake hlook haim => exact .link htake (hgrows.look _ _ hlook) haim
  | into htake hlook _ ih => exact .into htake (hgrows.look _ _ hlook) (ih ha)
  | through htake hlook hfollow honto _ ih =>
    exact .through htake (hgrows.look _ _ hlook) hfollow honto (ih ha)

theorem written {bytes : List UInt8} {time : Nat} (h : before.Walked .file links here steps a)
    (ha : a = .file place ∨ a = .vacant place)
    (hsets : before.Sets after place (.file bytes time)) :
    after.Walked .target links here steps (.file place) := by
  -- Neither a directory nor a link stands at the place, so the way there is as it was.
  have hkept : ∀ q entry, before.look q = some entry →
      entry = .directory 0 ∨ (∃ onto, entry = .link onto) → after.look q = some entry := by
    intro q entry hlook hentry
    rw [hsets.other q, hlook]
    rintro rfl
    rcases ha with rfl | rfl
    · obtain ⟨bytes, hfile⟩ := h.look_file
      rw [hfile] at hlook
      simp [← Option.some.inj hlook] at hentry
    · simp [h.look_vacant] at hlook
  induction h with
  | done | link => simp_all
  | here _ ih => exact .here (ih ha)
  | closing _ ih => exact .closing (ih ha)
  | above _ ih => exact .above (ih ha)
  | vacant htake hlook | file htake hlook =>
    obtain rfl : _ = place := by simpa using ha
    exact .file ⟨by simp, htake.2⟩ hsets.self
  | into htake hlook _ ih =>
    exact .into ⟨by simp, htake.2⟩ (hkept _ _ hlook (Or.inl rfl)) (ih ha)
  | through htake hlook _ honto _ ih =>
    exact .through ⟨by simp, htake.2⟩ (hkept _ _ hlook (Or.inr ⟨_, rfl⟩)) (by simp) honto (ih ha)

/-! ### Walks that stop on the way -/

theorem idle {idle : List Step} (hidle : ∀ step ∈ idle, ¬step.moves = true)
    (h : tree.Walked aim links here steps a) : tree.Walked aim links here (idle ++ steps) a := by
  induction idle with
  | nil => exact h
  | cons step idle ih =>
    have h := ih fun step hstep => hidle step (List.mem_cons_of_mem _ hstep)
    have hstep := hidle step List.mem_cons_self
    cases step with
    | here => exact .here h
    | closing => exact .closing h
    | above | name => simp [Step.moves] at hstep

/-- Steps that go as far as others, or not so far, begin as they do. -/
theorem front_cases {c : Step} {more front back : List Step}
    (h : c :: more = front.filter Step.moves ++ back) :
    front.filter Step.moves = [] ∨ ∃ idle rest, front = idle ++ c :: rest ∧
      (∀ step ∈ idle, ¬step.moves = true) ∧ more = rest.filter Step.moves ++ back := by
  cases hfront : front.filter Step.moves with
  | nil => exact Or.inl rfl
  | cons d ds =>
    rw [hfront, List.cons_append, List.cons.injEq] at h
    obtain ⟨rfl, rfl⟩ := h
    obtain ⟨idle, rest, rfl, hidle, -, rfl⟩ := List.filter_eq_cons_iff.mp hfront
    exact Or.inr ⟨idle, rest, rfl, hidle, rfl⟩

/-- A walk that goes as far as another one and no further ends in a directory, or at a link to it.
-/
theorem front {front back : List Step} (h : tree.Walked .target links here steps a)
    (hsteps : steps.filter Step.moves = front.filter Step.moves ++ back)
    (hend : back ≠ [] ∨ ∃ place, a = .directory place) (haim : aim ≠ .file) :
    ∃ a, tree.Walked aim links here front a ∧
      ((∃ place, a = .directory place) ∨ aim = .entry ∧ ∃ place, a = .link place) := by
  -- Where nothing moves, the walk ends where it begins.
  have hstill : ∀ {links here front}, front.filter Step.moves = [] →
      ∃ a, tree.Walked aim links here front a ∧
        ((∃ place, a = .directory place) ∨ aim = .entry ∧ ∃ place, a = .link place) := by
    intro links here front hfront
    have hdone : tree.Walked aim links here [] (.directory here) := done
    have hidle := hdone.idle (List.filter_eq_nil_iff.mp hfront)
    rw [List.append_nil] at hidle
    exact ⟨.directory here, hidle, Or.inl ⟨here, rfl⟩⟩
  induction h generalizing front with
  | done => exact hstill (List.append_eq_nil_iff.mp hsteps.symm).1
  | here _ ih | closing _ ih => exact ih hsteps hend
  | above _ ih =>
    rcases front_cases hsteps with hfront | ⟨idle, rest, rfl, hidle, hrest⟩
    · exact hstill hfront
    · obtain ⟨a, hwalked, ha⟩ := ih hrest hend
      exact ⟨a, hwalked.above.idle hidle, ha⟩
  | vacant | file =>
    rcases front_cases hsteps with hfront | ⟨idle, rest, -, -, hrest⟩
    · exact hstill hfront
    · rw [(List.append_eq_nil_iff.mp hrest.symm).2] at hend
      simp at hend
  | link _ _ htarget => simp at htarget
  | into htake hlook _ ih =>
    rcases front_cases hsteps with hfront | ⟨idle, rest, rfl, hidle, hrest⟩
    · exact hstill hfront
    · obtain ⟨a, hwalked, ha⟩ := ih hrest hend
      have htake : Step.Takable aim _ rest := ⟨fun hfile => haim hfile.1, htake.2⟩
      exact ⟨a, (hwalked.into htake hlook).idle hidle, ha⟩
  | through htake hlook _ honto _ ih =>
    rcases front_cases hsteps with hfront | ⟨idle, rest, rfl, hidle, hrest⟩
    · exact hstill hfront
    · have htake : Step.Takable aim _ rest := ⟨fun hfile => haim hfile.1, htake.2⟩
      by_cases hentry : aim = .entry ∧ rest = []
      · obtain ⟨hentry, rfl⟩ := hentry
        exact ⟨.link _, (Walked.link htake hlook hentry).idle hidle, Or.inr ⟨hentry, _, rfl⟩⟩
      · obtain ⟨a, hwalked, ha⟩ := @ih (Step.ofPath _ ++ rest) (by
          rw [List.filter_append, List.filter_append, hrest, List.append_assoc]) hend
        exact ⟨a, (hwalked.through htake hlook hentry honto).idle hidle, ha⟩

/-! ### Where a walk stands -/

theorem standing (h : tree.Walked aim links here steps a) (hhere : tree.Standing here) :
    tree.Standing a.ground := by
  induction h with
  | done | vacant | file | link => exact hhere
  | here _ ih | closing _ ih => exact ih hhere
  | above _ ih => exact ih hhere.tail
  | into _ hlook _ ih => exact ih (hhere.cons hlook)
  | @through _ _ _ _ onto _ _ _ _ _ _ ih =>
    apply ih
    cases onto.isAbsolute with
    | true => exact hhere.root
    | false => exact hhere

end Walked

end Tree

/-! ## The steps of a path -/

/-- The step that a component of a path asks for. -/
def Step.ofComponent? : Path.Component → Option Step
  | .root | .current => none
  | .parent => some .above
  | .name n => some (.name n)

theorem Step.filter_moves_ofPieces (pieces : List (List UInt8)) :
    (ofPieces pieces).filter moves =
      (pieces.filterMap Path.Component.ofPiece?).filterMap ofComponent? := by
  induction pieces with
  | nil => rfl
  | cons piece rest ih =>
    by_cases hempty : piece = []
    · subst hempty
      cases rest with
      | nil => rfl
      | cons next rest => exact ih
    · have hstep : ofPieces (piece :: rest) =
          if piece == [Path.dot] then .here :: ofPieces rest
          else if piece == [Path.dot, Path.dot] then .above :: ofPieces rest
          else .name piece :: ofPieces rest := by
        cases piece with
        | nil => exact absurd rfl hempty
        | cons b piece => rfl
      rw [hstep]
      by_cases hdot : piece = [Path.dot]
      · subst hdot
        exact ih
      · by_cases hdots : piece = [Path.dot, Path.dot]
        · subst hdots
          exact congrArg (Step.above :: ·) ih
        · have hname : Path.Component.ofPiece? piece = some (.name piece) := by
            simp [Path.Component.ofPiece?, hempty, hdot, hdots]
          rw [List.filterMap_cons_some hname]
          simp only [beq_iff_eq, hdot, hdots, if_false]
          exact congrArg (Step.name piece :: ·) ih

theorem Step.filter_moves_ofPath (p : Path) :
    (ofPath p).filter moves = p.components.filterMap ofComponent? := by
  have hleading : p.leading.filterMap ofComponent? = [] := by
    rcases p.leading_cases with ⟨-, h⟩ | ⟨-, ⟨h, -⟩ | h⟩ <;> rw [h] <;> rfl
  rw [ofPath, filter_moves_ofPieces, Path.components_eq, List.filterMap_append, hleading]
  rfl

end Files
end SketchPreview
