import SketchPreview.Error
import SketchPreview.Proofs.Target.Misdirection

/-!
What a URI can name.

Behind the scheme a URI goes on with a slash or it does not.  If it does, its path is empty or
begins with a slash, and stays so when its escapes are decoded (`isRooted_decode`); so a file that
is named in this way is named from the root.  A URI that does not is taken as one piece of text, and
what that spells is the path of a file, from the root or not.  `parse_behind_scheme` says that the
relative paths among them, which `Rootless` describes, are the only ones that a URI ever names.
-/

namespace SketchPreview

namespace Uri

/-! ## Paths behind a slash -/

/-- A path that is empty or begins with a slash. -/
def IsRooted (path : Text) : Prop := ∀ c, path.head? = some c → c = '/'

theorem isRooted_nil : IsRooted [] := by
  intro c hc
  simp at hc

theorem isRooted_slash (t : Text) : IsRooted ('/' :: t) := by
  intro c hc
  rw [List.head?_cons, Option.some.injEq] at hc
  exact hc.symm

theorem isRooted_normalize (t : Text) : IsRooted (Segments.normalize t) := isRooted_slash _

theorem isRooted_pathBehindHost (t : Text) : IsRooted (pathBehindHost t) := by
  unfold pathBehindHost
  split
  · exact isRooted_nil
  · exact isRooted_normalize _
  · exact isRooted_normalize _

theorem isRooted_of_readAuthority {t : Text} {uri : Uri} (h : readAuthority t = .ok uri) :
    IsRooted uri.path := by
  unfold readAuthority at h
  dsimp only at h
  split at h
  · simp at h
  · split at h
    · simp at h
    · split at h
      · simp at h
      · rw [← Except.ok.inj h]
        exact isRooted_pathBehindHost _

theorem isRooted_of_read {t : Text} {uri : Uri} (hslash : (tidy t).head? = some '/')
    (h : read t = .ok uri) : IsRooted uri.path := by
  unfold read at h
  split at h
  · exact isRooted_of_readAuthority h
  · rw [← Except.ok.inj h]
    exact isRooted_normalize _
  · rename_i hnone
    obtain ⟨rest, ht⟩ := List.head?_eq_some_iff.mp hslash
    exact absurd ht (hnone rest)

/-- Without a slash in front there is no host, and nothing is worked off. -/
theorem read_of_no_slash {t : Text} (h : (tidy t).head? ≠ some '/') :
    read t = .ok ⟨none, (tidy t).takeWhile fun c => !isPathEnd c⟩ := by
  unfold read
  split
  · rename_i heq
    simp [heq] at h
  · rename_i heq
    simp [heq] at h
  · rfl

end Uri

namespace Text
namespace Percent

/-- A slash in front is still there when the escapes are decoded. -/
theorem isRooted_decode {path text : Text} (hpath : Uri.IsRooted path)
    (h : decode path = .ok text) : Uri.IsRooted text := by
  rw [decode, Utf8.decode_eq_ok_iff] at h
  cases path with
  | nil =>
    cases text with
    | nil => exact Uri.isRooted_nil
    | cons c rest =>
      rw [Utf8.encode_cons] at h
      exact absurd (List.append_eq_nil_iff.mp h.symm).1 String.utf8EncodeChar_ne_nil
  | cons c path =>
    obtain rfl := hpath c rfl
    rw [encode_slash, decodeBytes_cons (by decide)] at h
    have habsolute : (Path.ofText text).isAbsolute = true := by
      rw [Path.isAbsolute, Path.ofText, ← h]
      rfl
    obtain ⟨rest, rfl⟩ := Path.eq_slash_of_isAbsolute habsolute
    exact Uri.isRooted_slash rest

end Percent
end Text

namespace Path

theorem isAbsolute_ofText_iff {t : Text} :
    (ofText t).isAbsolute = true ↔ t.head? = some '/' := by
  rw [isAbsolute_iff, shown_ofText, List.head?_eq_some_iff]

end Path

namespace Target

/-! ## Targets -/

/-- What is behind the colon is one piece of text, and `path` is what it spells: the path of a file,
not from the root. -/
def Rootless (rest path : Text) : Prop :=
  (Uri.tidy rest).head? ≠ some '/' ∧
    Text.Percent.decode ((Uri.tidy rest).takeWhile fun c => !Uri.isPathEnd c) = .ok path ∧
    path ≠ [] ∧ path.head? ≠ some '/'

/-- A target is read off the parts of a URI, whose path has been decoded. -/
theorem ofUri_eq_ok_iff {rest : Text} {target : Target} :
    ofUri rest = .ok target ↔
      ∃ uri path, Uri.read rest = .ok uri ∧ Text.Percent.decode uri.path = .ok path ∧
        ofParts uri.host? path = .ok target := by
  unfold ofUri
  cases hread : Uri.read rest with
  | error fault => simp
  | ok uri =>
    cases hpath : Text.Percent.decode uri.path with
    | error fault => simp [hpath]
    | ok path => simp [hpath]

theorem ofParts_eq_editor {host? : Option Text} {path id : Text}
    (h : ofParts host? path = .ok (.editor id)) : id ≠ [] ∧ id.head? ≠ some '/' := by
  unfold ofParts at h
  split at h
  · split at h
    · split at h
      · simp at h
      · rename_i hid
        obtain rfl := Target.editor.inj (Except.ok.inj h)
        refine ⟨hid, ?_⟩
        intro hslash
        have hfirst := List.head?_dropWhile_not (fun c => c == '/') path
        rw [hslash] at hfirst
        simp at hfirst
    · simp at h
  · split at h <;> simp at h

theorem ofParts_eq_file {host? : Option Text} {path : Text} {p : Path}
    (h : ofParts host? path = .ok (.file p)) : path ≠ [] ∧ p = Path.ofText path := by
  unfold ofParts at h
  split at h
  · split at h
    · split at h <;> simp at h
    · simp at h
  · split at h
    · simp at h
    · rename_i hpath
      exact ⟨by simpa using hpath, (Target.file.inj (Except.ok.inj h)).symm⟩

theorem ofUri_of_rootless {rest path : Text} (h : Rootless rest path) :
    ofUri rest = .ok (.file (Path.ofText path)) := by
  obtain ⟨hslash, hdecode, hne, -⟩ := h
  refine ofUri_eq_ok_iff.mpr ⟨_, path, Uri.read_of_no_slash hslash, hdecode, ?_⟩
  rw [ofParts, if_neg (by simpa using hne)]

/-- A file is named from the root, unless what names it is one piece of text. -/
theorem isAbsolute_or_rootless {rest : Text} {p : Path} (h : ofUri rest = .ok (.file p)) :
    p.isAbsolute = true ∨ ∃ path, Rootless rest path ∧ p = Path.ofText path := by
  obtain ⟨uri, path, hread, hdecode, hparts⟩ := ofUri_eq_ok_iff.mp h
  obtain ⟨hne, rfl⟩ := ofParts_eq_file hparts
  by_cases hslash : (Uri.tidy rest).head? = some '/'
  · have hrooted := Text.Percent.isRooted_decode (Uri.isRooted_of_read hslash hread) hdecode
    cases path with
    | nil => exact absurd rfl hne
    | cons c behind => exact Or.inl (Path.isAbsolute_ofText_iff.mpr (by rw [hrooted c rfl]; rfl))
  · rw [Uri.read_of_no_slash hslash, Except.ok.injEq] at hread
    subst hread
    by_cases hroot : path.head? = some '/'
    · exact Or.inl (Path.isAbsolute_ofText_iff.mpr hroot)
    · exact Or.inr ⟨path, ⟨hslash, hdecode, hne, hroot⟩, rfl⟩

/-- Behind the scheme, what names no target is refused as invalid, an editor has a name that does
not begin with a slash, and a file is named from the root unless one piece of text names it. -/
theorem parse_behind_scheme (rest : Text) :
    (∀ fault, parse (scheme ++ ':' :: rest) = .error fault →
      (PreviewError.target (scheme ++ ':' :: rest) fault).kind = .validation) ∧
    (∀ id, parse (scheme ++ ':' :: rest) = .ok (.editor id) → id ≠ [] ∧ id.head? ≠ some '/') ∧
    (∀ p, parse (scheme ++ ':' :: rest) = .ok (.file p) →
      (p.isAbsolute = true ↔ ¬ ∃ path, Rootless rest path)) ∧
    ∀ path, Rootless rest path →
      parse (scheme ++ ':' :: rest) = .ok (.file (Path.ofText path)) := by
  rw [parse_behind_colon]
  refine ⟨fun _ _ => rfl, ?_, ?_, fun path => ofUri_of_rootless⟩
  · intro id hid
    obtain ⟨_, _, _, _, hparts⟩ := ofUri_eq_ok_iff.mp hid
    exact ofParts_eq_editor hparts
  · intro p hp
    constructor
    · rintro habsolute ⟨path, hrootless⟩
      rw [ofUri_of_rootless hrootless, Except.ok.injEq, Target.file.injEq] at hp
      rw [← hp, Path.isAbsolute_ofText_iff] at habsolute
      exact hrootless.2.2.2 habsolute
    · intro hnone
      rcases isAbsolute_or_rootless hp with habsolute | ⟨path, hrootless, -⟩
      · exact habsolute
      · exact absurd ⟨path, hrootless⟩ hnone

theorem rootless_name : Rootless "sketch%20book/a.pde?saved".toList "sketch book/a.pde".toList :=
  ⟨by decide, Text.Utf8.decode_eq_ok_iff.mpr (by decide), by decide, by decide⟩

theorem ofUri_nil : ofUri [] = .error .neither := by
  have hread : Uri.read [] = .ok ⟨none, []⟩ := rfl
  have hdecode : Text.Percent.decode [] = .ok [] := Text.Utf8.decodeFrom_nil 0
  rw [ofUri, hread]
  dsimp only
  rw [hdecode]
  rfl

/-- Nothing at all, the name of an editor, a path from the root and one that is not. -/
theorem parse_behind_scheme_each :
    (parse (scheme ++ ':' :: []) = .error .neither ∧
      (PreviewError.target (scheme ++ ':' :: []) .neither).kind = .validation) ∧
    (parse (scheme ++ ':' :: "//editor/17".toList) = .ok (.editor "17".toList) ∧
      "17".toList ≠ [] ∧ "17".toList.head? ≠ some '/') ∧
    (parse (scheme ++ ':' :: "///a.pde".toList) = .ok (.file (Path.ofString "/a.pde")) ∧
      ((Path.ofString "/a.pde").isAbsolute = true ↔
        ¬ ∃ path, Rootless "///a.pde".toList path)) ∧
    Rootless "sketch%20book/a.pde?saved".toList "sketch book/a.pde".toList ∧
      parse (scheme ++ ':' :: "sketch%20book/a.pde?saved".toList) =
        .ok (.file (Path.ofString "sketch book/a.pde")) := by
  have hnone : parse (scheme ++ ':' :: []) = .error .neither := by
    rw [parse_behind_colon, ofUri_nil]
  have heditor : parse (scheme ++ ':' :: "//editor/17".toList) = .ok (.editor "17".toList) := by
    rw [show scheme ++ ':' :: "//editor/17".toList = uri (.editor "17".toList) by decide]
    exact parse_uri_editor (by decide) (by decide) (by decide) (by decide)
  have hfile : parse (scheme ++ ':' :: "///a.pde".toList) =
      .ok (.file (Path.ofString "/a.pde")) := by
    have huri : scheme ++ ':' :: "///a.pde".toList = uri (.file (Path.ofText "/a.pde".toList)) := by
      rw [uri, Path.shown_ofText]
      decide
    rw [huri]
    exact parse_uri_file (by decide)
  exact ⟨⟨hnone, (parse_behind_scheme []).1 .neither hnone⟩,
    ⟨heditor, (parse_behind_scheme _).2.1 _ heditor⟩,
    ⟨hfile, (parse_behind_scheme _).2.2.1 _ hfile⟩,
    rootless_name, (parse_behind_scheme _).2.2.2 _ rootless_name⟩

/-- The name of a file behind the scheme is taken as a path that is not from the root. -/
theorem parse_name_behind_scheme :
    parse "processing-preview:a.pde".toList = .ok (.file (Path.ofString "a.pde")) ∧
      ¬ ∀ rest p, parse (scheme ++ ':' :: rest) = .ok (.file p) → p.isAbsolute = true := by
  have hrootless : Rootless "a.pde".toList "a.pde".toList :=
    ⟨by decide, Text.Utf8.decode_eq_ok_iff.mpr (by decide), by decide, by decide⟩
  have hparse : parse (scheme ++ ':' :: "a.pde".toList) = .ok (.file (Path.ofString "a.pde")) := by
    rw [parse_behind_colon]
    exact ofUri_of_rootless hrootless
  refine ⟨hparse, ?_⟩
  intro h
  exact absurd (h _ _ hparse) (by decide)

end Target

end SketchPreview
