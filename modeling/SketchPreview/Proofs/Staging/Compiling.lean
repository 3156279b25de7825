import SketchPreview.Proofs.Files.Changes
import SketchPreview.Proofs.Staging.Names

/-!
Staging a source.

A call either finds nothing to stage, or fails for want of a directory or of a place to write to, or
puts the source at one place (`compile_cases`).  Where it fails, the main file cannot be read
afterwards; so it could not be read before, for a call takes nothing away.  `Overwrites` says what
follows for the tree, whether a call succeeds or fails.  Where it succeeds, the sketch lies in a
directory of the root and in a file of that directory (`staged_belowRoot`).
-/

namespace SketchPreview
namespace Staging

open Files

section Compile

variable {s : Staging} {tree next : Tree} (h : IsIdentifier s.name) (hground : tree.Grounded)

include h hground

/-- Where the main file can be read, all directories on the way to it are there. -/
theorem isDirectory_of_content? {bytes : List UInt8}
    (hcontent : tree.content? s.place.mainFile = some bytes) {q : Path}
    (hq : q ∈ s.place.directory.ancestors ∨ q = s.place.directory) : tree.isDirectory q = true := by
  have hpasses : s.place.mainFile.Passes q ∧ q.components <+: s.place.directory.components := by
    rcases hq with hq | rfl
    · have hq := Path.passes_of_mem_ancestors hq
      exact ⟨(passes_directory h).trans hq, hq.components⟩
    · exact ⟨passes_directory h, List.prefix_refl _⟩
  obtain ⟨more, hmore⟩ := hpasses.2
  apply Tree.isDirectory_above hground hcontent hpasses.1
  rw [components_mainFile h, ← hmore]

theorem compile_cases (source : Text) :
    Text.trim source = [] ∧ s.compile source tree = (.error .emptySketch, tree) ∨
    Text.trim source ≠ [] ∧
      ((∃ path fault next, s.compile source tree = (.error (.file path fault), next) ∧
        tree.Grows next ∧ next.content? s.place.mainFile = none) ∨
      ∃ place made next, s.compile source tree = (.ok s.place, next) ∧ tree.Grows made ∧
        made.look place ≠ some (.directory 0) ∧
        made.Sets next place (.file (Text.Utf8.encode source) made.clock) ∧
        next.find .target s.place.mainFile = .ok (.file place)) := by
  by_cases hblank : Text.trim source = []
  · exact Or.inl ⟨hblank, by simp [compile, hblank]⟩
  refine Or.inr ⟨hblank, ?_⟩
  have hgrows : tree.Grows (tree.makeDirectories s.place.directory).2 :=
    Tree.makeAlong_grows hground _
  have hsource : (Text.trim source).isEmpty = false := by simpa using hblank
  rcases hmade : tree.makeDirectories s.place.directory with ⟨⟨fault⟩ | ⟨⟨⟩⟩, made⟩
  · rw [hmade] at hgrows
    refine Or.inl ⟨s.place.directory, fault, made, by simp [compile, hsource, hmade], hgrows, ?_⟩
    obtain ⟨q, hq, hmissing⟩ := Tree.makeAlong_error hground hmade
    rw [Option.eq_none_iff_forall_ne_some]
    intro bytes hcontent
    have hthere := isDirectory_of_content? h (hgrows.grounded hground) hcontent (Or.inl hq)
    rw [hmissing] at hthere
    exact Bool.false_ne_true hthere
  · rw [hmade] at hgrows
    rcases Tree.write_cases (hgrows.grounded hground) s.place.mainFile
        (Text.Utf8.encode source) with ⟨fault, hwrite, hnone⟩ |
      ⟨place, next, hwrite, hplace, hsets, hfind⟩
    · exact Or.inl ⟨s.place.mainFile, fault, made, by simp [compile, hsource, hmade, hwrite],
        hgrows, hnone⟩
    · exact Or.inr ⟨place, made, next, by simp [compile, hsource, hmade, hwrite], hgrows, hplace,
        hsets, hfind⟩

/-- Where the main file can be read already, it is written in its place, and that is all. -/
theorem compile_again {source : Text} (hsource : Text.trim source ≠ []) {bytes : List UInt8}
    (hcontent : tree.content? s.place.mainFile = some bytes) :
    ∃ place, tree.find .target s.place.mainFile = .ok (.file place) ∧
      s.compile source tree = (.ok s.place,
        (tree.put place (some (.file (Text.Utf8.encode source) tree.clock))).tick) := by
  have hmade : tree.makeDirectories s.place.directory = (.ok (), tree) :=
    Tree.makeDirectories_there hground
      (isDirectory_of_content? h hground hcontent (Or.inr rfl))
  obtain ⟨place, hfind, -⟩ := (Tree.content?_eq_some_iff hground).mp hcontent
  have hwrite := Tree.find_to_write hfind
  refine ⟨place, hfind, ?_⟩
  simp [compile, hsource, hmade, Tree.write, hwrite]

end Compile

/-- What one call does with the tree. -/
structure Overwrites (s : Staging) (source : Text) (tree : Tree)
    (answer : Except PreviewError Staged) (next : Tree) : Prop where
  /-- White space is not staged. -/
  blank : Text.trim source = [] → answer = .error .emptySketch ∧ next = tree
  /-- Any other call that fails does so at a file.  In a tree where nothing is refused that is for
  want of a place to write to, so the main file can be read neither before nor after it. -/
  failed : ∀ error, answer = .error error → Text.trim source ≠ [] →
    (∃ path fault, error = .file path fault) ∧
      next.content? s.place.mainFile = tree.content? s.place.mainFile
  /-- What was staged is read back. -/
  staged : ∀ staged, answer = .ok staged → staged = s.place ∧
    next.readText s.place.mainFile = .ok source
  /-- No entry is changed or taken away but that of the main file. -/
  kept : ∀ q entry, tree.look q = some entry → next.look q = some entry ∨
    answer.isOk = true ∧ next.find .target s.place.mainFile = .ok (.file q)
  /-- Files keep their times, too. -/
  files : ∀ q bytes time, tree.node? q = some (.file bytes time) →
    next.node? q = some (.file bytes time) ∨
      answer.isOk = true ∧ next.find .target s.place.mainFile = .ok (.file q)
  /-- Nothing is made but directories and the main file. -/
  made : ∀ q, tree.look q = none → next.look q = none ∨ next.look q = some (.directory 0) ∨
    answer.isOk = true ∧ next.find .target s.place.mainFile = .ok (.file q)

section Overwrites

variable {s : Staging} {source : Text} {tree made next : Tree}

theorem overwrites_of_grows (hsource : Text.trim source ≠ []) (hground : tree.Grounded)
    (hgrows : tree.Grows next) (hnone : next.content? s.place.mainFile = none) (path : Path)
    (fault : Fault) : s.Overwrites source tree (.error (.file path fault)) next where
  blank := fun hblank => absurd hblank hsource
  failed := by
    intro error herror _
    refine ⟨⟨path, fault, (Except.error.inj herror).symm⟩, ?_⟩
    rw [hnone, eq_comm, Option.eq_none_iff_forall_ne_some]
    intro bytes hcontent
    rw [hgrows.content?_eq hground hcontent] at hnone
    simp at hnone
  staged := by simp
  kept := fun q entry hlook => Or.inl (hgrows.look q entry hlook)
  files := fun q bytes time hfile => Or.inl (hgrows.file q bytes time hfile)
  made := by
    intro q hq
    rcases hgrows.made q hq with hq | hq
    · exact Or.inl hq
    · exact Or.inr (Or.inl hq)

theorem overwrites_of_sets (hsource : Text.trim source ≠ []) (hnext : next.Grounded)
    (hgrows : tree.Grows made) {place : Place} {time : Nat}
    (hsets : made.Sets next place (.file (Text.Utf8.encode source) time))
    (hfind : next.find .target s.place.mainFile = .ok (.file place)) :
    s.Overwrites source tree (.ok s.place) next where
  blank := fun hblank => absurd hblank hsource
  failed := by simp
  staged := by
    intro staged hstaged
    refine ⟨(Except.ok.inj hstaged).symm, Tree.readText_eq_ok_iff.mpr ?_⟩
    exact (Tree.content?_eq_some_iff hnext).mpr ⟨place, hfind, hsets.self⟩
  kept := by
    intro q entry hlook
    by_cases hq : q = place
    · subst hq
      exact Or.inr ⟨rfl, hfind⟩
    · rw [hsets.other q hq]
      exact Or.inl (hgrows.look q entry hlook)
  files := by
    intro q bytes time hfile
    by_cases hq : q = place
    · subst hq
      exact Or.inr ⟨rfl, hfind⟩
    · exact Or.inl (hsets.file q bytes time hq (hgrows.file q bytes time hfile))
  made := by
    intro q hnone
    by_cases hq : q = place
    · subst hq
      exact Or.inr (Or.inr ⟨rfl, hfind⟩)
    · rw [hsets.other q hq]
      rcases hgrows.made q hnone with hnone | hdirectory
      · exact Or.inl hnone
      · exact Or.inr (Or.inl hdirectory)

theorem overwrites_compile (h : IsIdentifier s.name) (hground : tree.Grounded) (source : Text) :
    s.Overwrites source tree (s.compile source tree).1 (s.compile source tree).2 ∧
      (s.compile source tree).2.Grounded := by
  rcases compile_cases h hground source with ⟨hblank, heq⟩ | ⟨hsource,
    ⟨path, fault, next, heq, hgrows, hnone⟩ |
    ⟨place, made, next, heq, hgrows, hplace, hsets, hfind⟩⟩ <;> rw [heq]
  · exact ⟨⟨fun _ => ⟨rfl, rfl⟩, fun _ _ hsource => absurd hblank hsource, by simp,
      fun _ _ hlook => Or.inl hlook, fun _ _ _ hfile => Or.inl hfile,
      fun _ hnone => Or.inl hnone⟩, hground⟩
  · exact ⟨overwrites_of_grows hsource hground hgrows hnone path fault, hgrows.grounded hground⟩
  · have hnext := hsets.grounded hplace (hgrows.grounded hground)
    exact ⟨overwrites_of_sets hsource hnext hgrows hsets hfind, hnext⟩

/-- The main file after a call. -/
theorem Overwrites.content?_eq {answer : Except PreviewError Staged}
    (h : s.Overwrites source tree answer next) : next.content? s.place.mainFile =
      ((if answer.isOk then some source else none).map Text.Utf8.encode).or
        (tree.content? s.place.mainFile) := by
  cases answer with
  | ok staged => exact Tree.readText_eq_ok_iff.mp (h.staged staged rfl).2
  | error error =>
    by_cases hblank : Text.trim source = []
    · rw [(h.blank hblank).2]
      rfl
    · rw [(h.failed error rfl hblank).2]
      rfl

end Overwrites

/-! ## Where a sketch is staged -/

theorem eq_place_of_compile {s : Staging} {source : Text} {tree next : Tree} {staged : Staged}
    (h : s.compile source tree = (.ok staged, next)) : staged = s.place := by
  rw [compile] at h
  split at h
  · simp at h
  split at h
  · simp at h
  split at h
  · simp at h
  · exact (Except.ok.inj (Prod.mk.inj h).1).symm

theorem staged_of_compile {s : Staging} {source : Text} {tree next : Tree}
    (h : IsIdentifier s.name) (hground : tree.Grounded)
    (hcompile : s.compile source tree = (.ok s.place, next)) :
    next.isDirectory s.place.directory = true ∧ next.readText s.place.mainFile = .ok source ∧
      ∀ q bytes, next.look q = some (.file bytes 0) →
        tree.look q = some (.file bytes 0) ∨
          next.find .target s.place.mainFile = .ok (.file q) := by
  obtain ⟨hover, hnext⟩ := overwrites_compile h hground source
  rw [hcompile] at hover hnext
  have hread := (hover.staged s.place rfl).2
  refine ⟨isDirectory_of_content? h hnext (Tree.readText_eq_ok_iff.mp hread) (Or.inr rfl), hread,
    ?_⟩
  intro q bytes hfile
  cases hlook : tree.look q with
  | none =>
    rcases hover.made q hlook with hmade | hmade | ⟨-, hfind⟩
    · simp [hmade] at hfile
    · simp [hmade] at hfile
    · exact Or.inr hfind
  | some entry =>
    rcases hover.kept q entry hlook with hkept | ⟨-, hfind⟩
    · rw [← hfile, hkept]
      exact Or.inl rfl
    · exact Or.inr hfind

/-- Whether a sketch lies in a directory of the root and in a file of that directory, both called by
its name. -/
structure LiesBelow (staged : Staged) (root : Path) (name : Text) : Prop where
  directory : staged.directory.components = root.components ++ [.name (Text.Utf8.encode name)]
  mainFile : staged.mainFile.components = root.components ++
    [.name (Text.Utf8.encode name), .name (Text.Utf8.encode (name ++ ".pde".toList))]

theorem liesBelow_place {s : Staging} (h : IsIdentifier s.name) :
    LiesBelow s.place s.root s.name where
  directory := components_directory h
  mainFile := by
    rw [components_mainFile h, components_directory h, List.append_assoc]
    rfl

/-- Whatever a sketch is called, its name stays below the root, and its source comes there and
nowhere else. -/
theorem staged_belowRoot :
    (∀ raw, IsIdentifier (sketchName raw) ∧ sketchName (sketchName raw) = sketchName raw ∧
      (sketchName raw = raw ↔ IsIdentifier raw)) ∧
    ∀ (root : Path) (s : Staging),
      (∃ raw, s = named root raw) ∨ (∃ sketch, s = forSketch root sketch) →
      s.root = root ∧ IsIdentifier s.name ∧
      ∀ source tree staged next, s.compile source tree = (.ok staged, next) →
        LiesBelow staged root s.name ∧
        (tree.Grounded → next.isDirectory staged.directory = true ∧
          next.readText staged.mainFile = .ok source ∧
          ∀ q bytes, next.look q = some (.file bytes 0) →
            tree.look q = some (.file bytes 0) ∨
              next.find .target staged.mainFile = .ok (.file q)) := by
  refine ⟨fun raw => ⟨isIdentifier_sketchName raw, sketchName_sketchName raw,
    sketchName_eq_self_iff⟩, ?_⟩
  intro root s hs
  obtain ⟨hroot, h⟩ : s.root = root ∧ IsIdentifier s.name := by
    rcases hs with ⟨raw, rfl⟩ | ⟨sketch, rfl⟩
    · exact ⟨rfl, isIdentifier_sketchName raw⟩
    · exact ⟨rfl, isIdentifier_sketchName _⟩
  refine ⟨hroot, h, ?_⟩
  intro source tree staged next hcompile
  obtain rfl := eq_place_of_compile hcompile
  refine ⟨hroot ▸ liesBelow_place h, ?_⟩
  intro hground
  exact staged_of_compile h hground hcompile

/-- A tree where something was staged below the root before, under the name made of two dots. -/
def stagedOnce : Tree where
  node? := fun q => List.lookup q [([], Entry.directory 1), ([[0x5F, 0x5F]], .directory 2),
    ([[0x5F, 0x5F, 0x2E, 0x70, 0x64, 0x65], [0x5F, 0x5F]], .file [0x6F, 0x6C, 0x64, 0x21] 3)]
  working := []
  clock := 4

theorem grounded_stagedOnce : stagedOnce.Grounded := by
  intro q hq
  rw [List.suffix_nil.mp hq]
  rfl

theorem content?_stagedOnce :
    stagedOnce.content? (named (Path.ofString "/") ['.', '.']).place.mainFile =
      some [0x6F, 0x6C, 0x64, 0x21] := by
  rw [Tree.content?_eq_some_iff grounded_stagedOnce]
  refine ⟨[[0x5F, 0x5F, 0x2E, 0x70, 0x64, 0x65], [0x5F, 0x5F]], ?_, rfl⟩
  have hsteps : Step.ofPath (named (Path.ofString "/") ['.', '.']).place.mainFile =
      [.name [0x5F, 0x5F], .name [0x5F, 0x5F, 0x2E, 0x70, 0x64, 0x65]] := by decide
  rw [Tree.find_eq_ok_iff, hsteps]
  exact ⟨by decide, .into ⟨by decide, by decide⟩ rfl (.file ⟨by decide, by decide⟩ rfl)⟩

/-- Two dots do not lead out of the root. -/
theorem staged_belowRoot_dots :
    let s := named (Path.ofString "/") ['.', '.']
    s.name = ['_', '_'] ∧ ∃ next, s.compile ['a'] stagedOnce = (.ok s.place, next) ∧
      LiesBelow s.place (Path.ofString "/") s.name ∧
      next.readText s.place.mainFile = .ok ['a'] := by
  intro s
  obtain ⟨place, -, hcompile⟩ := compile_again (s := s) (isIdentifier_sketchName ['.', '.'])
    grounded_stagedOnce (show Text.trim ['a'] ≠ [] by decide) content?_stagedOnce
  obtain ⟨-, -, hstaged⟩ := staged_belowRoot.2 (Path.ofString "/") s (Or.inl ⟨['.', '.'], rfl⟩)
  obtain ⟨hlies, hread⟩ := hstaged ['a'] stagedOnce s.place _ hcompile
  exact ⟨by decide, _, hcompile, hlies, (hread grounded_stagedOnce).2.1⟩

end Staging
end SketchPreview
