import SketchPreview.Proofs.Files.Faults
import SketchPreview.Source

/-!
Loading the configuration that a file holds.

`Due` says what a path gives as a configuration: the defaults where nothing is there, an error that
names the path where something is in the way, and otherwise what its text says.  Loading first asks
whether there is a file, and takes every fault it meets there for a no.  So it gives what is due
unless the way to the file is barred, and then the defaults (`due_load_iff`), where reading a sketch
reports the fault.
-/

namespace SketchPreview

open Files

namespace Config

/-- What a path is to give as a configuration.  A fault of JSON is told as it is told of a text, with
the path in front. -/
inductive Due (tree : Tree) (p : Path) : Except PreviewError Config → Prop where
  | missing : tree.existing p = .error .notFound → Due tree p (.ok {})
  | unreadable {fault : Files.Fault} {e : PreviewError} :
      tree.readText p = .error fault → fault ≠ .notFound →
      e.kind = .io p → e.reason = fault.message → Due tree p (.error e)
  | usable {t : Text} {c : Config} :
      tree.readText p = .ok t → ofJson t = .ok c → Due tree p (.ok c)
  | malformed {t text : Text} {fault : Json.Fault} {e : PreviewError} :
      tree.readText p = .ok t → ofJson t = .error (.malformed text fault) → e.kind = .config →
      e.reason = String.ofList p.shown ++ ": " ++
        (PreviewError.config none (.malformed text fault)).reason →
      Due tree p (.error e)
  | defect {t : Text} {d : Defect} {e : PreviewError} :
      tree.readText p = .ok t → ofJson t = .error (.defect d) → e.kind = .config →
      e.reason = (PreviewError.config none (.defect d)).reason → Due tree p (.error e)

/-- Whether something is in the way to what a path names. -/
def Barred (tree : Tree) (p : Path) : Prop :=
  ∃ fault, fault.barsWay = true ∧ tree.existing p = .error fault

variable {tree : Tree} {p : Path}

theorem load_of_fault {fault : Files.Fault} (h : tree.existing p = .error fault) :
    load tree p = .ok {} := by
  rw [load, h]

theorem due_of_existing {entry : Entry} (h : tree.existing p = .ok entry) :
    Due tree p (load tree p) := by
  rw [load, h]
  dsimp only
  split
  · rename_i fault hread
    refine .unreadable hread ?_ rfl rfl
    rintro rfl
    rw [Tree.readText_eq_notFound_iff, h] at hread
    simp at hread
  · rename_i t hread
    split
    · rename_i fault hjson
      cases fault with
      | malformed text fault => exact .malformed hread hjson rfl rfl
      | defect d => exact .defect hread hjson rfl rfl
    · rename_i c hjson
      exact .usable hread hjson

theorem not_due_of_barred (h : Barred tree p) : ¬ Due tree p (load tree p) := by
  obtain ⟨fault, hbars, hexisting⟩ := h
  have hread := Tree.readText_of_existing hexisting
  rw [load_of_fault hexisting]
  intro hdue
  cases hdue with
  | missing hmissing =>
    rw [hexisting] at hmissing
    obtain rfl := Except.error.inj hmissing
    exact absurd hbars (by decide)
  | usable hread' =>
    rw [hread] at hread'
    simp at hread'

/-- Loading gives what is due unless something is in the way.  Then it gives the defaults, although
reading a sketch from there is an error that names the path; what counts as missing is the same for
both. -/
theorem due_load_iff (tree : Tree) (p : Path) :
    (Due tree p (load tree p) ↔ ¬ Barred tree p) ∧
    (Barred tree p → load tree p = .ok {} ∧
      ∃ fault, Source.read tree (.file p) = .error (.file p fault)) ∧
    (tree.existing p = .error .notFound ↔ tree.readText p = .error .notFound) := by
  refine ⟨⟨fun hdue hbarred => not_due_of_barred hbarred hdue, ?_⟩, ?_,
    Tree.readText_eq_notFound_iff.symm⟩
  · intro hopen
    cases hexisting : tree.existing p with
    | ok entry => exact due_of_existing hexisting
    | error fault =>
      rcases Tree.fault_of_existing hexisting with rfl | hbars
      · rw [load_of_fault hexisting]
        exact .missing hexisting
      · exact absurd ⟨fault, hbars, hexisting⟩ hopen
  · rintro ⟨fault, hbars, hexisting⟩
    refine ⟨load_of_fault hexisting, fault, ((Source.reading_read tree (.file p)).fault _).mpr ?_⟩
    refine ⟨p, fault, rfl, Tree.readText_of_existing hexisting, ?_, rfl⟩
    rintro rfl
    exact absurd hbars (by decide)

/-- A link that stands for itself, and a directory beside it. -/
def looped : Tree where
  node? := fun q => List.lookup q [([], Entry.directory 1), ([[0x6C]], .link ⟨[0x6C]⟩),
    ([[0x64]], .directory 2)]
  working := []
  clock := 3

theorem existing_looped : looped.existing (Path.ofString "l") = .error .tooManyLinks := by
  have hsteps : Step.ofPath (Path.ofString "l") = [.name [0x6C]] := by decide
  exact Tree.existing_of_link_to_itself (by decide) (by decide) (by decide) hsteps rfl

theorem existing_looped_directory : looped.existing (Path.ofString "d") = .ok (.directory 2) := by
  have hsteps : Step.ofPath (Path.ofString "d") = [.name [0x64]] := by decide
  have hfind : looped.find .target (Path.ofString "d") = .ok (.directory [[0x64]]) := by
    rw [Tree.find_eq_ok_iff, hsteps]
    exact ⟨by decide, .into ⟨by decide, by decide⟩ rfl .done⟩
  rw [Tree.existing, hfind]
  rfl

/-- A directory is an error that names the path, and a link that stands for itself is not. -/
theorem due_load_iff_looped :
    ¬ Barred looped (Path.ofString "d") ∧
      Due looped (Path.ofString "d") (load looped (Path.ofString "d")) ∧
      load looped (Path.ofString "d") = .error (.file (Path.ofString "d") .isDirectory) ∧
      Barred looped (Path.ofString "l") ∧ load looped (Path.ofString "l") = .ok {} := by
  have hopen : ¬ Barred looped (Path.ofString "d") := by
    rintro ⟨fault, -, hexisting⟩
    rw [existing_looped_directory] at hexisting
    simp at hexisting
  have hbarred : Barred looped (Path.ofString "l") := ⟨.tooManyLinks, rfl, existing_looped⟩
  refine ⟨hopen, (due_load_iff looped (Path.ofString "d")).1.mpr hopen, ?_, hbarred,
    ((due_load_iff looped (Path.ofString "l")).2.1 hbarred).1⟩
  rw [load, Tree.readText, existing_looped_directory]

/-- Behind a link that stands for itself the defaults are taken, and no error is told. -/
theorem load_link_to_itself :
    looped.existing (Path.ofString "l") = .error .tooManyLinks ∧
      load looped (Path.ofString "l") = .ok {} ∧
      ¬ ∀ tree p, Due tree p (load tree p) :=
  ⟨existing_looped, load_of_fault existing_looped,
    fun h => not_due_of_barred ⟨.tooManyLinks, rfl, existing_looped⟩ (h looped (Path.ofString "l"))⟩

end Config
end SketchPreview
