import SketchPreview.Proofs.Staging.Compiling

/-!
Staging one source after another.

Every call overwrites the main file or leaves it as it was (`overwrites_compile`).  By induction over
the calls it holds what was staged last, and what it held at first if nothing was
(`compileAll_holdsLast`).
-/

namespace SketchPreview
namespace Staging

open Files

/-- Stages one source after another, with the answer to each. -/
def compileAll (s : Staging) : List Text → Tree → List (Except PreviewError Staged) × Tree
  | [], tree => ([], tree)
  | source :: sources, tree =>
    let (answer, next) := s.compile source tree
    let (answers, last) := s.compileAll sources next
    (answer :: answers, last)

theorem compileAll_cons (s : Staging) (source : Text) (sources : List Text) (tree : Tree) :
    s.compileAll (source :: sources) tree =
      ((s.compile source tree).1 :: (s.compileAll sources (s.compile source tree).2).1,
        (s.compileAll sources (s.compile source tree).2).2) := rfl

/-- The source of the last call that succeeded. -/
def lastStaged? (sources : List Text) (answers : List (Except PreviewError Staged)) :
    Option Text :=
  (((sources.zip answers).filter fun call => call.2.isOk).getLast?).map Prod.fst

theorem lastStaged?_cons (source : Text) (sources : List Text)
    (answer : Except PreviewError Staged) (answers : List (Except PreviewError Staged)) :
    lastStaged? (source :: sources) (answer :: answers) =
      (lastStaged? sources answers).or (if answer.isOk then some source else none) := by
  rw [lastStaged?, lastStaged?, List.zip_cons_cons, List.filter_cons]
  cases answer.isOk with
  | false => simp
  | true =>
    rw [if_pos rfl, if_pos rfl, List.getLast?_cons]
    cases ((sources.zip answers).filter fun call => call.2.isOk).getLast? <;> rfl

section CompileAll

variable {s : Staging} (h : IsIdentifier s.name)

include h

theorem grounded_compileAll (sources : List Text) {tree : Tree} (hground : tree.Grounded) :
    (s.compileAll sources tree).2.Grounded := by
  induction sources generalizing tree with
  | nil => exact hground
  | cons source sources ih => exact ih (overwrites_compile h hground source).2

theorem holdsLast_compileAll (sources : List Text) {tree : Tree} (hground : tree.Grounded) :
    (s.compileAll sources tree).2.content? s.place.mainFile =
      ((lastStaged? sources (s.compileAll sources tree).1).map Text.Utf8.encode).or
        (tree.content? s.place.mainFile) := by
  induction sources generalizing tree with
  | nil => rfl
  | cons source sources ih =>
    obtain ⟨hover, hnext⟩ := overwrites_compile h hground source
    rw [compileAll_cons, ih hnext, hover.content?_eq, lastStaged?_cons, Option.map_or,
      Option.or_assoc]

end CompileAll

/-- A sketch under any name, staged again and again over whatever was there. -/
theorem compileAll_holdsLast (root : Path) (raw : Text) (sources : List Text) (tree : Tree)
    (hground : tree.Grounded) :
    let s := named root raw
    let last := (s.compileAll sources tree).2
    (∀ before source after, sources = before ++ source :: after →
      s.Overwrites source (s.compileAll before tree).2
        (s.compile source (s.compileAll before tree).2).1
        (s.compile source (s.compileAll before tree).2).2) ∧
    match lastStaged? sources (s.compileAll sources tree).1 with
    | some source => last.readText s.place.mainFile = .ok source
    | none => last.content? s.place.mainFile = tree.content? s.place.mainFile := by
  have h : IsIdentifier (named root raw).name := isIdentifier_sketchName raw
  refine ⟨?_, ?_⟩
  · intro before source after _
    exact (overwrites_compile h (grounded_compileAll h before hground) source).1
  · have hlast := holdsLast_compileAll h sources hground
    split
    · rename_i source hsource
      rw [Tree.readText_eq_ok_iff, hlast, hsource]
      rfl
    · rename_i hnone
      rw [hlast, hnone]
      rfl

/-- A tree where a file stands in place of the directory for a sketch that is named by two dots. -/
def occupied : Tree where
  node? := fun q => List.lookup q [([], Entry.directory 1), ([[0x5F, 0x5F]], .file [] 2)]
  working := []
  clock := 3

theorem grounded_occupied : occupied.Grounded := by
  intro q hq
  rw [List.suffix_nil.mp hq]
  rfl

/-- The directory cannot be made, and the file that is in its place stays. -/
theorem compile_occupied {source : Text} (hsource : Text.trim source ≠ []) :
    let s := named (Path.ofString "/") ['.', '.']
    s.compile source occupied =
      (.error (.file s.place.directory .alreadyExists), occupied) := by
  intro s
  have hancestors : s.place.directory.ancestors = [s.place.directory, Path.ofString "/"] := by
    decide
  have hend : Tree.withoutEnd s.place.directory = s.place.directory := by decide
  have hsteps : Step.ofPath s.place.directory = [.name [0x5F, 0x5F]] := by decide
  have hfind : ∀ aim, occupied.find aim s.place.directory = .ok (.file [[0x5F, 0x5F]]) := by
    intro aim
    rw [Tree.find_eq_ok_iff, hsteps]
    exact ⟨by decide, .file ⟨by simp, by decide⟩ rfl⟩
  have hdirectory : occupied.isDirectory s.place.directory = false := by
    rw [Tree.isDirectory, Tree.existing, hfind]
    rfl
  simp [compile, hsource, Tree.makeDirectories, hancestors, Tree.makeAlong, Tree.makeDirectory,
    hend, hfind, Tree.orThere, hdirectory]

/-- A text that is shorter than what was there, and white space after it.  Where a file stands in
place of the directory, every text fails and what the main file held stays. -/
theorem compileAll_holdsLast_shorter :
    let s := named (Path.ofString "/") ['.', '.']
    (stagedOnce.Grounded ∧ stagedOnce.readText s.place.mainFile = .ok ['o', 'l', 'd', '!'] ∧
      (s.compileAll [['a'], [' ']] stagedOnce).1 = [.ok s.place, .error .emptySketch] ∧
      (s.compileAll [['a'], [' ']] stagedOnce).2.readText s.place.mainFile = .ok ['a']) ∧
    occupied.Grounded ∧
      (s.compileAll [['a'], [' '], ['b']] occupied).1 =
        [.error (.file s.place.directory .alreadyExists), .error .emptySketch,
          .error (.file s.place.directory .alreadyExists)] ∧
      (s.compileAll [['a'], [' '], ['b']] occupied).2.content? s.place.mainFile =
        occupied.content? s.place.mainFile := by
  intro s
  have hblank : ∀ tree, s.compile [' '] tree = (.error .emptySketch, tree) := fun _ => rfl
  refine ⟨?_, ?_⟩
  · obtain ⟨-, hlast⟩ := compileAll_holdsLast (Path.ofString "/") ['.', '.'] [['a'], [' ']]
      stagedOnce grounded_stagedOnce
    obtain ⟨place, -, hfirst⟩ := compile_again (s := s) (isIdentifier_sketchName ['.', '.'])
      grounded_stagedOnce (show Text.trim ['a'] ≠ [] by decide) content?_stagedOnce
    have hanswers : (s.compileAll [['a'], [' ']] stagedOnce).1 =
        [.ok s.place, .error .emptySketch] := by
      simp only [compileAll, hfirst, hblank]
    have hstaged :
        lastStaged? [['a'], [' ']] (s.compileAll [['a'], [' ']] stagedOnce).1 = some ['a'] := by
      rw [hanswers]
      rfl
    rw [hstaged] at hlast
    refine ⟨grounded_stagedOnce, ?_, hanswers, hlast⟩
    rw [Tree.readText_eq_ok_iff, content?_stagedOnce]
    decide
  · obtain ⟨-, hlast⟩ := compileAll_holdsLast (Path.ofString "/") ['.', '.'] [['a'], [' '], ['b']]
      occupied grounded_occupied
    have hanswers : (s.compileAll [['a'], [' '], ['b']] occupied).1 =
        [.error (.file s.place.directory .alreadyExists), .error .emptySketch,
          .error (.file s.place.directory .alreadyExists)] := by
      simp only [compileAll, s, compile_occupied (show Text.trim ['a'] ≠ [] by decide), hblank,
        compile_occupied (show Text.trim ['b'] ≠ [] by decide)]
    have hnothing :
        lastStaged? [['a'], [' '], ['b']] (s.compileAll [['a'], [' '], ['b']] occupied).1 = none := by
      rw [hanswers]
      rfl
    rw [hnothing] at hlast
    exact ⟨grounded_occupied, hanswers, hlast⟩

end Staging
end SketchPreview
