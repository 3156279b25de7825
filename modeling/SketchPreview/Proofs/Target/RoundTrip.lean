import SketchPreview.Proofs.Text.Percent
import SketchPreview.Proofs.Text.Pieces
import SketchPreview.Target

/-!
The URI of a target names that target again (`parse_uri_same`).

Writing and reading are two different codes.  A path is escaped segment by segment, while reading
works off the segments that are dots, joins what is left and decodes it as one text; so the path
that comes back may be spelled differently.  `withoutDots` says on plain segments what reading does
to the escaped ones (`resolve_encode`), and it changes no component (`components_withoutDots`).
-/

namespace SketchPreview

/-! ## Segments -/

namespace Uri
namespace Segments

/-- Segments without those that mean the place they stand in.  One at the end leaves an empty
segment. -/
def withoutDots : List Text → List Text
  | [] => []
  | segment :: rest =>
    if segment = ['.'] then (if rest.isEmpty then [[]] else withoutDots rest)
    else segment :: withoutDots rest

theorem withoutDots_ne_nil {segments : List Text} (h : segments ≠ []) :
    withoutDots segments ≠ [] := by
  induction segments with
  | nil => exact absurd rfl h
  | cons segment rest ih =>
    rw [withoutDots]
    by_cases hs : segment = ['.']
    · rw [if_pos hs]
      cases rest with
      | nil => simp
      | cons next more => exact ih (List.cons_ne_nil next more)
    · rw [if_neg hs]
      exact List.cons_ne_nil _ _

theorem mem_withoutDots {segments : List Text} {segment : Text}
    (h : segment ∈ withoutDots segments) : segment ∈ segments ∨ segment = [] := by
  induction segments with
  | nil => simp [withoutDots] at h
  | cons first rest ih =>
    have hlater : segment ∈ withoutDots rest → segment ∈ first :: rest ∨ segment = [] := by
      intro hm
      rcases ih hm with hm | rfl
      · exact Or.inl (List.mem_cons_of_mem first hm)
      · exact Or.inr rfl
    rw [withoutDots] at h
    split at h
    · split at h
      · exact Or.inr (List.mem_singleton.mp h)
      · exact hlater h
    · rcases List.mem_cons.mp h with rfl | hm
      · exact Or.inl List.mem_cons_self
      · exact hlater hm

theorem resolve_encode {segments : List Text} (h : ['.', '.'] ∉ segments) (kept : List Text) :
    resolve kept (segments.map Text.Percent.encode) =
      kept.reverse ++ (withoutDots segments).map Text.Percent.encode := by
  induction segments generalizing kept with
  | nil =>
    rw [List.map_nil, resolve, withoutDots, List.map_nil, List.append_nil]
  | cons segment rest ih =>
    rw [List.mem_cons, not_or] at h
    have habove : ¬ isAbove (Text.Percent.encode segment) = true := by
      rw [Text.Percent.isAbove_encode]
      exact Ne.symm h.1
    rw [List.map_cons, resolve, if_neg habove, withoutDots]
    by_cases hs : segment = ['.']
    · rw [if_pos ((Text.Percent.isHere_encode segment).mpr hs), if_pos hs, ih h.2]
      cases rest with
      | nil => simp [withoutDots]
      | cons next more => rfl
    · have hhere : ¬ isHere (Text.Percent.encode segment) = true := by
        rw [Text.Percent.isHere_encode]
        exact hs
      rw [if_neg hhere, if_neg hs, ih h.2, List.reverse_cons, List.append_assoc]
      rfl

theorem slash_not_mem_encode (t : Text) : '/' ∉ Text.Percent.encode t := by
  intro h
  exact absurd (Text.Percent.isSafe_of_mem_encode h) (by decide)

/-- Reading the path of a URI works off the dots of the segments that were written. -/
theorem normalize_encode {segments : List Text} (hne : segments ≠ [])
    (h : ['.', '.'] ∉ segments) :
    normalize (['/'].intercalate (segments.map Text.Percent.encode)) =
      '/' :: ['/'].intercalate ((withoutDots segments).map Text.Percent.encode) := by
  have hpieces : Text.pieces '/' (['/'].intercalate (segments.map Text.Percent.encode)) =
      segments.map Text.Percent.encode := by
    apply Text.pieces_intercalate
    · simpa using hne
    · intro part hpart
      obtain ⟨segment, -, rfl⟩ := List.mem_map.mp hpart
      exact slash_not_mem_encode segment
  rw [normalize, hpieces, resolve_encode h, List.reverse_nil, List.nil_append]

end Segments

/-! ## Reading what was written -/

/-- A character of a path whose segments are escaped. -/
def isPathChar (c : Char) : Bool := c == '/' || Text.Percent.isSafe c

theorem isPathChar_of_mem_intercalate {segments : List Text} {c : Char}
    (h : c ∈ ['/'].intercalate (segments.map Text.Percent.encode)) : isPathChar c = true := by
  by_cases hslash : c = '/'
  · subst hslash
    rfl
  · obtain ⟨piece, hpiece, hc⟩ := (Text.mem_intercalate_iff hslash).mp h
    obtain ⟨segment, -, rfl⟩ := List.mem_map.mp hpiece
    rw [isPathChar, Text.Percent.isSafe_of_mem_encode hc, Bool.or_true]

theorem lt_of_isPathChar {c : Char} (h : isPathChar c = true) : 0x20 < c.toNat := by
  rw [isPathChar, Bool.or_eq_true, beq_iff_eq] at h
  rcases h with rfl | h
  · decide
  · simp only [Text.Percent.isSafe, Bool.and_eq_true, decide_eq_true_eq] at h
    exact h.1.1.1

theorem not_isPathEnd {c : Char} (h : isPathChar c = true) : (!isPathEnd c) = true := by
  rw [isPathChar, Bool.or_eq_true, beq_iff_eq] at h
  rcases h with rfl | h
  · decide
  · simp only [Text.Percent.isSafe, Bool.and_eq_true, bne_iff_ne, ne_eq] at h
    simp [isPathEnd, h.1.2, h.2]

theorem tidy_eq {t : Text} (h : ∀ c ∈ t, 0x20 < c.toNat) : tidy t = t := by
  have hend : (t.reverse.dropWhile fun c => decide (c.toNat ≤ 0x20)) = t.reverse := by
    cases ht : t.reverse with
    | nil => rfl
    | cons c rest =>
      have hc := h c (by rw [← List.mem_reverse, ht]; exact List.mem_cons_self)
      rw [List.dropWhile_cons_of_neg]
      rw [decide_eq_true_eq]
      omega
  rw [tidy, hend, List.reverse_reverse, List.filter_eq_self]
  intro c hc
  have hlt := h c hc
  simp only [Bool.and_eq_true, bne_iff_ne, ne_eq, ← Char.toNat_inj]
  exact ⟨⟨Nat.ne_of_gt (Nat.lt_trans (by decide) hlt), Nat.ne_of_gt (Nat.lt_trans (by decide) hlt)⟩,
    Nat.ne_of_gt (Nat.lt_trans (by decide) hlt)⟩

theorem readAuthority_file (path : Text) : readAuthority ('/' :: path) =
    .ok ⟨none, Segments.normalize (path.takeWhile fun c => !isPathEnd c)⟩ := rfl

theorem readAuthority_editor (path : Text) :
    readAuthority (Target.editorHost ++ '/' :: path) =
      .ok ⟨some Target.editorHost, Segments.normalize (path.takeWhile fun c => !isPathEnd c)⟩ :=
  rfl

theorem read_authority {authority path : Text} (ha : ∀ c ∈ authority, 0x20 < c.toNat)
    (hpath : ∀ c ∈ path, isPathChar c = true) :
    Uri.read ("//".toList ++ (authority ++ '/' :: path)) =
      readAuthority (authority ++ '/' :: path) := by
  have htidy : tidy ("//".toList ++ (authority ++ '/' :: path)) =
      "//".toList ++ (authority ++ '/' :: path) := by
    apply tidy_eq
    intro c hc
    simp only [List.mem_append, List.mem_cons] at hc
    rcases hc with hc | hc | rfl | hc
    · obtain rfl : c = '/' := by simpa using hc
      decide
    · exact ha c hc
    · decide
    · exact lt_of_isPathChar (hpath c hc)
  rw [Uri.read, htidy]
  rfl

theorem takeWhile_path {path : Text} (hpath : ∀ c ∈ path, isPathChar c = true) :
    (path.takeWhile fun c => !isPathEnd c) = path := by
  have hall : ((path ++ []).takeWhile fun c => !isPathEnd c) =
      path ++ List.takeWhile (fun c => !isPathEnd c) [] :=
    List.takeWhile_append_of_pos fun c hc => not_isPathEnd (hpath c hc)
  rwa [List.append_nil, List.takeWhile_nil, List.append_nil] at hall

end Uri

namespace Text
namespace Percent

theorem encode_slash (t : Text) : Utf8.encode ('/' :: t) = Path.separator :: Utf8.encode t := rfl

/-- A path is decoded as a whole, though it was escaped segment by segment. -/
theorem decodeBytes_intercalate (segments : List Text) (rest : List UInt8) :
    decodeBytes (Utf8.encode (['/'].intercalate (segments.map encode)) ++ rest) =
      Utf8.encode (['/'].intercalate segments) ++ decodeBytes rest := by
  induction segments with
  | nil => rfl
  | cons segment more ih =>
    cases more with
    | nil =>
      rw [List.map_singleton, List.intercalate_singleton, List.intercalate_singleton]
      exact decodeBytes_encode segment rest
    | cons next more =>
      rw [List.map_cons] at ih
      rw [List.map_cons, List.map_cons, List.intercalate_cons_cons, List.intercalate_cons_cons,
        List.append_assoc, List.append_assoc, List.singleton_append, List.singleton_append,
        Utf8.encode_append, Utf8.encode_append, List.append_assoc, decodeBytes_encode,
        encode_slash, encode_slash, List.cons_append, decodeBytes_cons (by decide), ih,
        List.append_assoc, List.cons_append]

theorem decode_path (segments : List Text) :
    decode ('/' :: ['/'].intercalate (segments.map encode)) =
      .ok ('/' :: ['/'].intercalate segments) := by
  have hbytes := decodeBytes_intercalate segments []
  rw [List.append_nil, show decodeBytes [] = [] from rfl, List.append_nil] at hbytes
  rw [decode, encode_slash, decodeBytes_cons (by decide), hbytes, ← encode_slash]
  exact Utf8.decode_encode _

end Percent
end Text

/-! ## Absolute paths -/

namespace Path

/-- The components of the bytes of a segment. -/
def componentOf? (segment : Text) : Option Component :=
  Component.ofPiece? (Text.Utf8.encode segment)

theorem components_ofText_slash (t : Text) :
    (ofText ('/' :: t)).components = .root :: (Text.pieces '/' t).filterMap componentOf? := by
  have hslash : '/'.toNat < 128 := by decide
  have hpieces : Text.pieces separator (Text.Utf8.encode ('/' :: t)) =
      (Text.pieces '/' ('/' :: t)).map Text.Utf8.encode :=
    Text.pieces_encode hslash ('/' :: t)
  have hroot : (ofText ('/' :: t)).leading = [.root] := rfl
  rw [components, hroot, ofText, hpieces, Text.pieces_cons_mark, List.map_cons,
    List.filterMap_cons_none rfl, List.filterMap_map]
  rfl

theorem isAbsolute_iff {p : Path} : p.isAbsolute = true ↔ ∃ t, p.shown = '/' :: t := by
  obtain ⟨bytes⟩ := p
  constructor
  · intro h
    obtain ⟨rest, rfl⟩ : ∃ rest, bytes = separator :: rest := by
      cases bytes with
      | nil => simp [isAbsolute] at h
      | cons b rest => exact ⟨rest, by simpa [isAbsolute] using h⟩
    exact ⟨_, Text.Utf8.decodeLossy_append '/' rest⟩
  · rintro ⟨t, ht⟩
    obtain ⟨rest, rfl, -⟩ := Text.Utf8.eq_of_decodeLossy_cons (by decide) ht
    rfl

theorem shown_ofText (t : Text) : (ofText t).shown = t := by
  rw [shown, ofText, Text.Utf8.decodeLossy_encode]

theorem eq_slash_of_isAbsolute {t : Text} (h : (ofText t).isAbsolute = true) :
    ∃ rest, t = '/' :: rest := by
  rwa [isAbsolute_iff, shown_ofText] at h

/-- Working off the dots of a path changes none of its components. -/
theorem components_withoutDots (segments : List Text) :
    (Uri.Segments.withoutDots segments).filterMap componentOf? =
      segments.filterMap componentOf? := by
  have hdot : componentOf? ['.'] = none := by decide
  have hempty : componentOf? [] = none := by decide
  induction segments with
  | nil => rfl
  | cons segment rest ih =>
    rw [Uri.Segments.withoutDots]
    by_cases hs : segment = ['.']
    · rw [if_pos hs, hs, List.filterMap_cons_none hdot]
      cases rest with
      | nil => exact List.filterMap_cons_none hempty
      | cons next more => exact ih
    · rw [if_neg hs, List.filterMap_cons, List.filterMap_cons, ih]

end Path

/-! ## Targets -/

namespace Target

/-- The targets that a URI can name: the absolute paths that are text and go up nowhere, and the
editors whose names a path can hold as one segment. -/
def Addressable : Target → Prop
  | .file p => (∃ t, p = Path.ofText t) ∧ p.isAbsolute = true ∧ .parent ∉ p.components
  | .editor id => id ≠ [] ∧ id.head? ≠ some '/' ∧ id ≠ ['.'] ∧ id ≠ ['.', '.']

theorem parse_behind_colon (rest : Text) : parse (scheme ++ ':' :: rest) = ofUri rest := by
  have hbehind : Text.behind? (scheme ++ [':']) (scheme ++ ':' :: rest) = some rest :=
    Text.behind?_eq_some_iff.mpr (by rw [List.append_assoc]; rfl)
  rw [parse, hbehind]

theorem parse_scheme (rest : Text) : parse (scheme ++ "://".toList ++ rest) =
    ofUri ("//".toList ++ rest) := by
  rw [List.append_assoc]
  exact parse_behind_colon ("//".toList ++ rest)

theorem parse_uri_file {t : Text} (hparent : ['.', '.'] ∉ Text.pieces '/' t) :
    parse (uri (.file (Path.ofText ('/' :: t)))) =
      .ok (.file (Path.ofText
        ('/' :: ['/'].intercalate (Uri.Segments.withoutDots (Text.pieces '/' t))))) := by
  have hne := Text.pieces_ne_nil '/' t
  have huri : uri (.file (Path.ofText ('/' :: t))) = scheme ++ "://".toList ++
      ([] ++ '/' :: ['/'].intercalate ((Text.pieces '/' t).map Text.Percent.encode)) := by
    rw [uri, Path.shown_ofText, Text.pieces_cons_mark]
    cases hp : Text.pieces '/' t with
    | nil => exact absurd hp hne
    | cons segment more => rfl
  have hpath : ∀ c ∈ ['/'].intercalate ((Text.pieces '/' t).map Text.Percent.encode),
      Uri.isPathChar c = true := fun c hc => Uri.isPathChar_of_mem_intercalate hc
  rw [huri, parse_scheme, ofUri, Uri.read_authority (by simp) hpath, List.nil_append,
    Uri.readAuthority_file, Uri.takeWhile_path hpath, Uri.Segments.normalize_encode hne hparent]
  dsimp only
  rw [Text.Percent.decode_path]
  rfl

theorem parse_uri_editor {id : Text} (hne : id ≠ []) (hslash : id.head? ≠ some '/')
    (hhere : id ≠ ['.']) (habove : id ≠ ['.', '.']) :
    parse (uri (.editor id)) = .ok (.editor id) := by
  have huri : uri (.editor id) = scheme ++ "://".toList ++
      (editorHost ++ '/' :: ['/'].intercalate ([id].map Text.Percent.encode)) := by
    rw [uri, List.map_singleton, List.intercalate_singleton, List.append_assoc]
  have hletters : editorHost.all fun c => 0x20 < c.toNat := by decide
  have hhost : ∀ c ∈ editorHost, 0x20 < c.toNat :=
    fun c hc => of_decide_eq_true (List.all_eq_true.mp hletters c hc)
  have hpath : ∀ c ∈ ['/'].intercalate ([id].map Text.Percent.encode),
      Uri.isPathChar c = true := fun c hc => Uri.isPathChar_of_mem_intercalate hc
  have hdots : Uri.Segments.withoutDots [id] = [id] := by
    rw [Uri.Segments.withoutDots, if_neg hhere, Uri.Segments.withoutDots]
  rw [huri, parse_scheme, ofUri, Uri.read_authority hhost hpath, Uri.readAuthority_editor,
    Uri.takeWhile_path hpath,
    Uri.Segments.normalize_encode (List.cons_ne_nil id []) (by simpa using Ne.symm habove), hdots]
  dsimp only
  rw [Text.Percent.decode_path, List.intercalate_singleton]
  cases id with
  | nil => exact absurd rfl hne
  | cons c rest =>
    have hc : c ≠ '/' := by
      intro h
      exact hslash (by rw [h]; rfl)
    have hdrop : ('/' :: c :: rest).dropWhile (· == '/') = c :: rest := by
      rw [List.dropWhile_cons, if_pos (by decide), List.dropWhile_cons, if_neg (by simpa using hc)]
    dsimp only
    rw [ofParts, if_pos (by decide), hdrop]

/-- The URI of a target is read as that target, whatever characters its path or name holds. -/
theorem parse_uri_same (target : Target) (h : target.Addressable) :
    ∃ read, parse target.uri = .ok read ∧ Same read target := by
  cases target with
  | editor id =>
    obtain ⟨hne, hslash, hhere, habove⟩ := h
    exact ⟨.editor id, parse_uri_editor hne hslash hhere habove, rfl⟩
  | file p =>
    obtain ⟨⟨t, rfl⟩, habsolute, hparent⟩ := h
    obtain ⟨t, rfl⟩ := Path.eq_slash_of_isAbsolute habsolute
    have hne := Uri.Segments.withoutDots_ne_nil (Text.pieces_ne_nil '/' t)
    have hpieces : Text.pieces '/'
        (['/'].intercalate (Uri.Segments.withoutDots (Text.pieces '/' t))) =
        Uri.Segments.withoutDots (Text.pieces '/' t) := by
      apply Text.pieces_intercalate hne
      intro segment hs
      rcases Uri.Segments.mem_withoutDots hs with hs | rfl
      · exact Text.not_mem_of_mem_pieces hs
      · exact List.not_mem_nil
    have habove : ['.', '.'] ∉ Text.pieces '/' t := by
      intro hmem
      rw [Path.components_ofText_slash] at hparent
      exact hparent (List.mem_cons_of_mem _ (List.mem_filterMap.mpr ⟨_, hmem, by decide⟩))
    refine ⟨_, parse_uri_file habove, ?_⟩
    show Path.components _ = Path.components _
    rw [Path.components_ofText_slash, Path.components_ofText_slash, hpieces,
      Path.components_withoutDots]

/-- A path with empty segments, dots, a line break and every character that a URI gives a meaning
to, and the name of an editor that looks like an escaped path. -/
theorem parse_uri_reserved_characters :
    let file := Target.file (Path.ofString "/tmp//./100%25 #1?/a\\b\n@:[/größe✓/.")
    let editor := Target.editor "a/../b%2e?#\t é".toList
    (file.Addressable ∧ ∃ read, parse file.uri = .ok read ∧ Same read file) ∧
      editor.Addressable ∧ ∃ read, parse editor.uri = .ok read ∧ Same read editor := by
  intro file editor
  have hfile : file.Addressable := ⟨⟨_, rfl⟩, by decide, by decide⟩
  have heditor : editor.Addressable := by
    refine ⟨?_, ?_, ?_, ?_⟩ <;> decide
  exact ⟨⟨hfile, parse_uri_same file hfile⟩, heditor, parse_uri_same editor heditor⟩

end Target
end SketchPreview
