import Mathlib.Data.List.TakeWhile
import SketchPreview.Proofs.Target.RoundTrip

/-!
Targets whose URI names another target.

Every target has a URI, but not every URI reads back as the target it was written for.  Most that do
not are refused.  The others are those of `Target.Misdirected`: a relative path below `editor`, whose
first segment is read as the host of editors, an absolute path that goes up or is not text, and an
editor whose name begins with a slash.  `misread_iff` says that there are no more of them, so
away from these a URI that reads back names one target only.

The proof follows a URI through its reader.  `settle` says on plain segments what becomes of the
escaped ones when dots are worked off (`resolve_map_encode`); the first segment stands where a host
does and is read as one (`readAuthority_encode`); `parse_segments` puts the two together, for files
and editors alike.
-/

namespace SketchPreview

/-! ## Characters of escaped text -/

namespace Text
namespace Percent

/-- What a host must not hold is always escaped. -/
theorem isForbiddenInHost_of_mem_encodeByte {b : UInt8} {c : Char} (h : c ∈ encodeByte b) :
    Uri.isForbiddenInHost c = false := by
  have hdigit : ∀ n, n < 16 → Uri.isForbiddenInHost (hexDigit n) = false := by decide
  have hkept : ∀ n, n < 128 →
      (0x41 ≤ n ∧ n ≤ 0x5A) ∨ (0x61 ≤ n ∧ n ≤ 0x7A) ∨ (0x30 ≤ n ∧ n ≤ 0x39) ∨ n = 0x2D ∨
        n = 0x5F ∨ n = 0x2E ∨ n = 0x7E → Uri.isForbiddenInHost (Char.ofNat n) = false := by
    decide
  have hb := b.toNat_lt
  rw [encodeByte] at h
  split at h
  · rename_i hunreserved
    have hcases := toNat_of_isUnreserved hunreserved
    obtain rfl := List.mem_singleton.mp h
    exact hkept b.toNat (by omega) hcases
  · simp only [List.mem_cons, List.not_mem_nil, or_false] at h
    rcases h with rfl | rfl | rfl
    · decide
    · exact hdigit _ (by omega)
    · exact hdigit _ (by omega)

theorem isForbiddenInHost_of_mem_encode {t : Text} {c : Char} (h : c ∈ encode t) :
    Uri.isForbiddenInHost c = false := by
  obtain ⟨b, -, hc⟩ := List.mem_flatMap.mp h
  exact isForbiddenInHost_of_mem_encodeByte hc

theorem not_mem_encode {c : Char} (hc : Uri.isForbiddenInHost c = true) (t : Text) :
    c ∉ encode t := by
  intro h
  rw [isForbiddenInHost_of_mem_encode h] at hc
  exact absurd hc (by decide)

end Percent
end Text

/-! ## Segments -/

namespace Uri
namespace Segments

/-- Segments with the dots among them worked off, behind those in `kept`, innermost first.  What is
worked off at the end leaves an empty segment. -/
def settle (kept : List Text) : List Text → List Text
  | [] => kept.reverse
  | segment :: rest =>
    if segment = ['.', '.'] then settle (if rest.isEmpty then [] :: kept.tail else kept.tail) rest
    else if segment = ['.'] then settle (if rest.isEmpty then [] :: kept else kept) rest
    else settle (segment :: kept) rest

/-- No drive is ever written: its colon or bar would be escaped. -/
theorem isDrive_encode (t : Text) : isDrive (Text.Percent.encode t) = false := by
  cases h : Text.Percent.encode t with
  | nil => rfl
  | cons letter rest =>
    cases rest with
    | nil => rfl
    | cons mark rest =>
      have hcolon : mark ≠ ':' := by
        rintro rfl
        exact Text.Percent.not_mem_encode (c := ':') (by decide) t (by simp [h])
      have hbar : mark ≠ '|' := by
        rintro rfl
        exact Text.Percent.not_mem_encode (c := '|') (by decide) t (by simp [h])
      simp [isDrive, hcolon, hbar]

theorem pop_map_encode (kept : List Text) :
    pop (kept.map Text.Percent.encode) = kept.tail.map Text.Percent.encode := by
  cases kept with
  | nil => rfl
  | cons top outer => rw [List.map_cons, pop, if_neg (by simp [isDrive_encode]), List.tail_cons]

theorem resolve_map_encode (kept segments : List Text) :
    resolve (kept.map Text.Percent.encode) (segments.map Text.Percent.encode) =
      (settle kept segments).map Text.Percent.encode := by
  induction segments generalizing kept with
  | nil => rw [List.map_nil, resolve, settle, List.map_reverse]
  | cons segment rest ih =>
    have hempty : (rest.map Text.Percent.encode).isEmpty = rest.isEmpty := List.isEmpty_map
    rw [List.map_cons, resolve, settle, hempty, pop_map_encode]
    by_cases habove : segment = ['.', '.']
    · rw [if_pos ((Text.Percent.isAbove_encode segment).mpr habove), if_pos habove, ← ih]
      split <;> rfl
    · rw [if_neg (mt (Text.Percent.isAbove_encode segment).mp habove), if_neg habove]
      by_cases hhere : segment = ['.']
      · rw [if_pos ((Text.Percent.isHere_encode segment).mpr hhere), if_pos hhere, ← ih]
        split <;> rfl
      · rw [if_neg (mt (Text.Percent.isHere_encode segment).mp hhere), if_neg hhere, ← ih]
        rfl

theorem forall_settle {P : Text → Prop} (hnil : P []) {kept segments : List Text}
    (hkept : ∀ segment ∈ kept, P segment)
    (h : ∀ segment ∈ segments, segment ≠ ['.', '.'] → P segment) :
    ∀ segment ∈ settle kept segments, P segment := by
  -- Working dots off only takes segments away or puts empty ones in.
  induction segments generalizing kept with
  | nil =>
    intro segment hs
    rw [settle, List.mem_reverse] at hs
    exact hkept segment hs
  | cons first rest ih =>
    have hrest : ∀ segment ∈ rest, segment ≠ ['.', '.'] → P segment :=
      fun segment hs => h segment (List.mem_cons_of_mem first hs)
    have htail : ∀ segment ∈ kept.tail, P segment :=
      fun segment hs => hkept segment (List.mem_of_mem_tail hs)
    rw [settle]
    split
    · refine ih ?_ hrest
      split
      · exact List.forall_mem_cons.mpr ⟨hnil, htail⟩
      · exact htail
    · rename_i habove
      split
      · refine ih ?_ hrest
        split
        · exact List.forall_mem_cons.mpr ⟨hnil, hkept⟩
        · exact hkept
      · exact ih (List.forall_mem_cons.mpr ⟨h first List.mem_cons_self habove, hkept⟩) hrest

theorem settle_ne_nil {segments : List Text} (h : segments ≠ []) (kept : List Text) :
    settle kept segments ≠ [] := by
  induction segments generalizing kept with
  | nil => exact absurd rfl h
  | cons segment rest ih =>
    rw [settle]
    cases rest with
    | nil =>
      -- The last segment stays or leaves an empty one.
      simp only [settle, List.isEmpty_nil, if_true]
      split
      · simp
      · split <;> simp
    | cons next more =>
      have hrest := ih (List.cons_ne_nil next more)
      split
      · exact hrest _
      · split <;> exact hrest _

/-- Where nothing goes up, only the dots that mean the place they stand in are worked off. -/
theorem settle_eq_withoutDots {segments : List Text} (h : ['.', '.'] ∉ segments)
    (kept : List Text) : settle kept segments = kept.reverse ++ withoutDots segments := by
  induction segments generalizing kept with
  | nil => rw [settle, withoutDots, List.append_nil]
  | cons segment rest ih =>
    rw [List.mem_cons, not_or] at h
    rw [settle, if_neg (Ne.symm h.1), withoutDots]
    by_cases hs : segment = ['.']
    · rw [if_pos hs, if_pos hs, ih h.2]
      cases rest with
      | nil => simp [withoutDots]
      | cons next more => rfl
    · rw [if_neg hs, if_neg hs, ih h.2, List.reverse_cons, List.append_assoc]
      rfl

theorem normalize_map_encode {segments : List Text} (hne : segments ≠ []) :
    normalize (['/'].intercalate (segments.map Text.Percent.encode)) =
      '/' :: ['/'].intercalate ((settle [] segments).map Text.Percent.encode) := by
  have hpieces : Text.pieces '/' (['/'].intercalate (segments.map Text.Percent.encode)) =
      segments.map Text.Percent.encode := by
    apply Text.pieces_intercalate
    · simpa using hne
    · intro part hpart
      obtain ⟨segment, -, rfl⟩ := List.mem_map.mp hpart
      exact slash_not_mem_encode segment
  rw [normalize, hpieces, ← resolve_map_encode, List.map_nil]

end Segments

/-! ## Escaped text as a host -/

theorem cutUser?_encode (t : Text) : cutUser? (Text.Percent.encode t) = none := by
  have hat : ∀ c ∈ (Text.Percent.encode t).reverse, (c != '@') = true := by
    intro c hc
    rw [bne_iff_ne]
    rintro rfl
    exact Text.Percent.not_mem_encode (by decide) t (List.mem_reverse.mp hc)
  rw [cutUser?, List.dropWhile_eq_nil_iff.mpr hat]

theorem cutHost_eq_self {t : Text} (hcolon : ':' ∉ t) (hbracket : '[' ∉ t) :
    cutHost false t = (t, []) := by
  induction t with
  | nil => rfl
  | cons c t ih =>
    rw [List.mem_cons, not_or] at hcolon hbracket
    have hc : (c == '[' || false && c != ']') = false := by simp [Ne.symm hbracket.1]
    rw [cutHost, if_neg (by simp [Ne.symm hcolon.1]), hc, ih hcolon.2 hbracket.2]

theorem hostFault?_encode (t : Text) : hostFault? (Text.Percent.encode t) = none := by
  have hbracket : ¬ ((Text.Percent.encode t).head? == some '[') = true := by
    rw [beq_iff_eq]
    intro h
    exact Text.Percent.not_mem_encode (c := '[') (by decide) t (List.mem_of_mem_head? h)
  have hforbidden : ¬ (Text.Percent.encode t).any isForbiddenInHost = true := by
    rw [List.any_eq_true]
    rintro ⟨c, hc, h⟩
    exact Text.Percent.not_mem_encode h t hc
  rw [hostFault?, if_neg hbracket, if_neg hforbidden]

theorem readHost_encode (t : Text) :
    readHost (Text.Percent.encode t) = .ok (Text.Percent.encode t, []) := by
  rw [readHost, cutHost_eq_self (Text.Percent.not_mem_encode (by decide) t)
    (Text.Percent.not_mem_encode (by decide) t)]
  dsimp only
  rw [hostFault?_encode]

theorem not_isAuthorityEnd_of_mem_encode {t : Text} {c : Char} (h : c ∈ Text.Percent.encode t) :
    isAuthorityEnd c = false := by
  rw [← Bool.not_eq_true]
  intro hend
  simp only [isAuthorityEnd, isPathEnd, Bool.or_eq_true, beq_iff_eq] at hend
  rcases hend with rfl | rfl | rfl <;>
    exact Text.Percent.not_mem_encode (by decide) t h

theorem readAuthority_encode (first : Text) {behind : Text}
    (h : behind = [] ∨ ∃ rest, behind = '/' :: rest) :
    readAuthority (Text.Percent.encode first ++ behind) =
      .ok ⟨if first = [] then none else some (Text.Percent.encode first),
        pathBehindHost behind⟩ := by
  have hinside : ∀ c ∈ Text.Percent.encode first, (!isAuthorityEnd c) = true := by
    intro c hc
    rw [not_isAuthorityEnd_of_mem_encode hc]
    rfl
  have htake : behind.takeWhile (fun c => !isAuthorityEnd c) = [] := by
    rcases h with rfl | ⟨rest, rfl⟩ <;> rfl
  have hdrop : behind.dropWhile (fun c => !isAuthorityEnd c) = behind := by
    rcases h with rfl | ⟨rest, rfl⟩ <;> rfl
  rw [readAuthority, List.takeWhile_append_of_pos hinside, List.dropWhile_append_of_pos hinside,
    htake, hdrop, List.append_nil, cutUser?_encode]
  dsimp only [Option.getD]
  rw [if_neg (by simp), readHost_encode]
  simp [Text.Percent.encode_eq_nil_iff]

/-- The path that is written as the segments given, behind a host. -/
def pathOf (segments : List Text) : Text :=
  if segments = [] then [] else '/' :: ['/'].intercalate segments

theorem pathOf_of_ne_nil {segments : List Text} (h : segments ≠ []) :
    pathOf segments = '/' :: ['/'].intercalate segments := if_neg h

theorem pathBehindHost_encode (segments : List Text) :
    pathBehindHost (pathOf (segments.map Text.Percent.encode)) =
      pathOf ((Segments.settle [] segments).map Text.Percent.encode) := by
  cases segments with
  | nil => rfl
  | cons segment rest =>
    have hne : segment :: rest ≠ [] := List.cons_ne_nil segment rest
    have hpath : ∀ c ∈ '/' :: ['/'].intercalate ((segment :: rest).map Text.Percent.encode),
        isPathChar c = true := by
      intro c hc
      rcases List.mem_cons.mp hc with rfl | hc
      · rfl
      · exact isPathChar_of_mem_intercalate hc
    rw [pathOf_of_ne_nil (by simp), pathBehindHost, takeWhile_path hpath,
      pathOf_of_ne_nil (by simpa using Segments.settle_ne_nil hne [])]
    exact Segments.normalize_map_encode hne

theorem read_segments (first : Text) (rest : List Text) :
    Uri.read ("//".toList ++ ['/'].intercalate ((first :: rest).map Text.Percent.encode)) =
      .ok ⟨if first = [] then none else some (Text.Percent.encode first),
        pathOf ((Segments.settle [] rest).map Text.Percent.encode)⟩ := by
  have htidy : tidy ("//".toList ++ ['/'].intercalate ((first :: rest).map Text.Percent.encode)) =
      "//".toList ++ ['/'].intercalate ((first :: rest).map Text.Percent.encode) := by
    apply tidy_eq
    intro c hc
    rcases List.mem_append.mp hc with hc | hc
    · obtain rfl : c = '/' := by simpa using hc
      decide
    · exact lt_of_isPathChar (isPathChar_of_mem_intercalate hc)
  have hsplit : ['/'].intercalate ((first :: rest).map Text.Percent.encode) =
      Text.Percent.encode first ++ pathOf (rest.map Text.Percent.encode) := by
    cases rest with
    | nil => simp [pathOf]
    | cons next more =>
      rw [List.map_cons, List.map_cons, List.intercalate_cons_cons, List.append_assoc, pathOf,
        if_neg (List.cons_ne_nil _ _), List.singleton_append]
  have hbehind : pathOf (rest.map Text.Percent.encode) = [] ∨
      ∃ path, pathOf (rest.map Text.Percent.encode) = '/' :: path := by
    rw [pathOf]
    split
    · exact Or.inl rfl
    · exact Or.inr ⟨_, rfl⟩
  have hread : Uri.read ("//".toList ++
      ['/'].intercalate ((first :: rest).map Text.Percent.encode)) =
      readAuthority (['/'].intercalate ((first :: rest).map Text.Percent.encode)) := by
    rw [Uri.read, htidy]
    rfl
  rw [hread, hsplit, readAuthority_encode first hbehind, pathBehindHost_encode]

theorem decode_pathOf (segments : List Text) :
    Text.Percent.decode (pathOf (segments.map Text.Percent.encode)) = .ok (pathOf segments) := by
  cases segments with
  | nil => exact Text.Utf8.decodeFrom_nil 0
  | cons segment rest =>
    rw [pathOf_of_ne_nil (by simp), pathOf_of_ne_nil (by simp)]
    exact Text.Percent.decode_path (segment :: rest)

theorem dropWhile_pathOf_eq_nil_iff {segments : List Text}
    (h : ∀ segment ∈ segments, '/' ∉ segment) :
    (pathOf segments).dropWhile (· == '/') = [] ↔ ∀ segment ∈ segments, segment = [] := by
  cases segments with
  | nil => simp [pathOf]
  | cons first rest =>
    rw [List.dropWhile_eq_nil_iff, pathOf_of_ne_nil (by simp)]
    constructor
    · intro hall segment hs
      rw [List.eq_nil_iff_forall_not_mem]
      intro c hc
      have hne : c ≠ '/' := by
        rintro rfl
        exact h segment hs hc
      have hmem : c ∈ ['/'].intercalate (first :: rest) :=
        (Text.mem_intercalate_iff hne).mpr ⟨segment, hs, hc⟩
      exact hne (by simpa using hall c (List.mem_cons_of_mem _ hmem))
    · intro hempty c hc
      rw [beq_iff_eq]
      by_contra hne
      rcases List.mem_cons.mp hc with hc | hc
      · exact hne hc
      · obtain ⟨segment, hs, hc⟩ := (Text.mem_intercalate_iff hne).mp hc
        rw [hempty segment hs] at hc
        exact absurd hc List.not_mem_nil

end Uri

/-! ## Paths and their texts -/

namespace Path

theorem exists_eq_ofText {p : Path}
    (h : ∀ bytes, .name bytes ∈ p.components → ∃ t, bytes = Text.Utf8.encode t) :
    ∃ t, p = ofText t := by
  have hpieces : ∀ piece ∈ Text.pieces separator p.bytes, ∃ t, piece = Text.Utf8.encode t := by
    intro piece hpiece
    by_cases hempty : piece = []
    · exact ⟨[], hempty⟩
    by_cases hdot : piece = [dot]
    · exact ⟨['.'], hdot⟩
    by_cases hparent : piece = [dot, dot]
    · exact ⟨['.', '.'], hparent⟩
    · apply h piece
      have hname : Component.ofPiece? piece = some (.name piece) := by
        simp [Component.ofPiece?, hempty, hdot, hparent]
      exact List.mem_append_right _ (List.mem_filterMap.mpr ⟨piece, hpiece, hname⟩)
  -- The separators between the pieces are text as well.
  have hjoin : ∀ pieces : List (List UInt8), (∀ piece ∈ pieces, ∃ t, piece = Text.Utf8.encode t) →
      ∃ t, [separator].intercalate pieces = Text.Utf8.encode t := by
    intro pieces hall
    induction pieces with
    | nil => exact ⟨[], rfl⟩
    | cons piece more ih =>
      obtain ⟨t, rfl⟩ := hall _ List.mem_cons_self
      obtain ⟨u, hu⟩ := ih fun q hq => hall q (List.mem_cons_of_mem _ hq)
      cases more with
      | nil => exact ⟨t, List.intercalate_singleton⟩
      | cons next more =>
        refine ⟨t ++ '/' :: u, ?_⟩
        rw [List.intercalate_cons_cons, hu, Text.Utf8.encode_append, Text.Percent.encode_slash,
          List.append_assoc, List.singleton_append]
  obtain ⟨t, ht⟩ := hjoin _ hpieces
  refine ⟨t, ?_⟩
  rw [ofText, ← ht, Text.intercalate_pieces]

theorem eq_of_componentOf? {segment : Text} {c : Component} (h : componentOf? segment = some c) :
    c = .parent ∧ segment = ['.', '.'] ∨ c = .name (Text.Utf8.encode segment) := by
  rw [componentOf?, Component.ofPiece?] at h
  split at h
  · simp at h
  split at h
  · rename_i hparent
    have hbytes : Text.Utf8.encode segment = Text.Utf8.encode ['.', '.'] :=
      beq_iff_eq.mp hparent
    have htext := Text.Utf8.decode_encode segment
    rw [hbytes, Text.Utf8.decode_encode, Except.ok.injEq] at htext
    exact Or.inl ⟨(Option.some.inj h).symm, htext.symm⟩
  · exact Or.inr (Option.some.inj h).symm

theorem components_pathOf {segments : List Text} (hne : segments ≠ [])
    (h : ∀ segment ∈ segments, '/' ∉ segment) :
    (ofText (Uri.pathOf segments)).components = .root :: segments.filterMap componentOf? := by
  rw [Uri.pathOf_of_ne_nil hne, components_ofText_slash, Text.pieces_intercalate hne h]

/-- An absolute path is the same with its dots worked off only if it is text and goes up nowhere. -/
theorem same_settle_iff {p : Path} {t : Text} (h : p.shown = '/' :: t) :
    (ofText (Uri.pathOf (Uri.Segments.settle [] (Text.pieces '/' t)))).Same p ↔
      (∃ u, p = ofText u) ∧ .parent ∉ p.components := by
  have hne := Uri.Segments.settle_ne_nil (Text.pieces_ne_nil '/' t) []
  have hslash : ∀ segment ∈ Uri.Segments.settle [] (Text.pieces '/' t), '/' ∉ segment :=
    Uri.Segments.forall_settle List.not_mem_nil (by simp)
      fun segment hs _ => Text.not_mem_of_mem_pieces hs
  rw [Same, components_pathOf hne hslash]
  constructor
  · intro hsame
    -- Where no dots are left, a component is a name, and the name of a segment is text.
    have hsegments : ∀ c ∈ p.components, c = .root ∨
        ∃ segment, c = .name (Text.Utf8.encode segment) := by
      intro c hc
      rw [← hsame, List.mem_cons] at hc
      rcases hc with hc | hc
      · exact Or.inl hc
      · obtain ⟨segment, hs, hcomponent⟩ := List.mem_filterMap.mp hc
        have hparent : segment ≠ ['.', '.'] :=
          Uri.Segments.forall_settle (P := fun s => s ≠ ['.', '.']) (by decide) (by simp)
            (fun _ _ hs => hs) segment hs
        rcases eq_of_componentOf? hcomponent with ⟨-, hs⟩ | hname
        · exact absurd hs hparent
        · exact Or.inr ⟨segment, hname⟩
    constructor
    · apply exists_eq_ofText
      intro bytes hbytes
      rcases hsegments _ hbytes with hroot | ⟨segment, hname⟩
      · simp at hroot
      · exact ⟨segment, by simpa using hname⟩
    · intro hparent
      rcases hsegments _ hparent with hroot | ⟨segment, hname⟩
      · simp at hroot
      · simp at hname
  · rintro ⟨⟨u, rfl⟩, hparent⟩
    have hu : u = '/' :: t := by
      rw [← h, shown_ofText]
    subst hu
    rw [components_ofText_slash] at hparent ⊢
    have hup : ['.', '.'] ∉ Text.pieces '/' t := by
      intro hmem
      exact hparent (List.mem_cons_of_mem _ (List.mem_filterMap.mpr ⟨_, hmem, by decide⟩))
    rw [Uri.Segments.settle_eq_withoutDots hup, List.reverse_nil, List.nil_append,
      components_withoutDots]

end Path

/-! ## Targets -/

namespace Target

/-- The targets whose URI names another target. -/
def Misdirected : Target → Prop
  | .file p =>
    if p.isAbsolute then (∀ t, p ≠ Path.ofText t) ∨ .parent ∈ p.components
    else ∃ rest, Text.pieces '/' p.shown = editorHost :: rest ∧
      ∃ segment ∈ Uri.Segments.settle [] rest, segment ≠ []
  | .editor id => id.head? = some '/' ∧ ∃ c ∈ id, c ≠ '/'

theorem parse_segments (first : Text) (rest : List Text) :
    parse (scheme ++ "://".toList ++
      ['/'].intercalate ((first :: rest).map Text.Percent.encode)) =
      ofParts (if first = [] then none else some (Text.Percent.encode first))
        (Uri.pathOf (Uri.Segments.settle [] rest)) := by
  rw [parse_scheme, ofUri, Uri.read_segments]
  dsimp only
  rw [Uri.decode_pathOf]

theorem encode_eq_editorHost_iff {first : Text} :
    Text.Percent.encode first = editorHost ↔ first = editorHost := by
  have hhost : Text.Percent.encode editorHost = editorHost := by decide
  constructor
  · intro h
    have hfirst := Uri.decode_pathOf [first]
    rw [List.map_singleton, h, ← hhost, ← List.map_singleton (f := Text.Percent.encode),
      Uri.decode_pathOf, Except.ok.injEq] at hfirst
    simpa [Uri.pathOf] using hfirst.symm
  · rintro rfl
    exact hhost

theorem ofParts_editorHost_eq_ok_iff {path : Text} {read : Target} :
    ofParts (some editorHost) path = .ok read ↔
      path.dropWhile (· == '/') ≠ [] ∧ read = .editor (path.dropWhile (· == '/')) := by
  rw [ofParts, if_pos (by decide)]
  cases path.dropWhile (· == '/') with
  | nil => simp
  | cons c rest => simp [eq_comm]

theorem parse_uri_absolute {p : Path} {t : Text} (h : p.shown = '/' :: t) :
    parse (uri (.file p)) =
      .ok (.file (Path.ofText (Uri.pathOf (Uri.Segments.settle [] (Text.pieces '/' t))))) := by
  have hpieces : Text.pieces '/' p.shown = [] :: Text.pieces '/' t := by
    rw [h, Text.pieces_cons_mark]
  have hne := Uri.Segments.settle_ne_nil (Text.pieces_ne_nil '/' t) []
  rw [uri, hpieces, parse_segments, if_pos rfl, ofParts, Uri.pathOf_of_ne_nil hne]
  rfl

theorem parse_uri_relative {p : Path} (h : ¬ p.isAbsolute = true) {first : Text} {rest : List Text}
    (hpieces : Text.pieces '/' p.shown = first :: rest) :
    parse (uri (.file p)) =
      if first = editorHost then
        ofParts (some editorHost) (Uri.pathOf (Uri.Segments.settle [] rest))
      else .error .neither := by
  rw [uri, hpieces, parse_segments]
  by_cases hhost : first = editorHost
  · subst hhost
    rw [if_pos rfl, if_neg (by decide), encode_eq_editorHost_iff.mpr rfl]
  rw [if_neg hhost]
  by_cases hfirst : first = []
  · -- A path without a first segment is empty, for a slash in front would make it absolute.
    obtain rfl : rest = [] := by
      have hjoin := Text.intercalate_pieces '/' p.shown
      rw [hpieces, hfirst] at hjoin
      cases rest with
      | nil => rfl
      | cons next more =>
        rw [List.intercalate_cons_cons, List.nil_append, List.singleton_append] at hjoin
        exact absurd (Path.isAbsolute_iff.mpr ⟨_, hjoin.symm⟩) h
    rw [if_pos hfirst]
    rfl
  · have hother : ¬ (Text.Percent.encode first == editorHost) = true := by
      rw [beq_iff_eq, encode_eq_editorHost_iff]
      exact hhost
    rw [if_neg hfirst, ofParts, if_neg hother]

theorem parse_uri_name (id : Text) : parse (uri (.editor id)) =
    ofParts (some editorHost) (Uri.pathOf (Uri.Segments.settle [] [id])) := by
  have huri : uri (.editor id) = scheme ++ "://".toList ++
      ['/'].intercalate ([editorHost, id].map Text.Percent.encode) := by
    rw [List.map_cons, List.map_singleton, List.intercalate_cons_cons, List.intercalate_singleton,
      encode_eq_editorHost_iff.mpr rfl, uri, List.append_assoc, List.append_assoc]
    rfl
  rw [huri, parse_segments, if_neg (by decide), encode_eq_editorHost_iff.mpr rfl]

theorem misread_absolute_iff {p : Path} (h : p.isAbsolute = true) :
    (∃ read, parse (uri (.file p)) = .ok read ∧ ¬ Same read (.file p)) ↔
      (∀ t, p ≠ Path.ofText t) ∨ .parent ∈ p.components := by
  obtain ⟨t, ht⟩ := Path.isAbsolute_iff.mp h
  have hsame := Path.same_settle_iff ht
  have hread : (∃ read, parse (uri (.file p)) = .ok read ∧ ¬ Same read (.file p)) ↔
      ¬ (Path.ofText (Uri.pathOf (Uri.Segments.settle [] (Text.pieces '/' t)))).Same p := by
    rw [parse_uri_absolute ht]
    simp [Same]
  rw [hread, hsame, not_and_or, not_exists, not_not]

theorem misread_relative_iff {p : Path} (h : ¬ p.isAbsolute = true) :
    (∃ read, parse (uri (.file p)) = .ok read ∧ ¬ Same read (.file p)) ↔
      ∃ rest, Text.pieces '/' p.shown = editorHost :: rest ∧
        ∃ segment ∈ Uri.Segments.settle [] rest, segment ≠ [] := by
  cases hpieces : Text.pieces '/' p.shown with
  | nil => exact absurd hpieces (Text.pieces_ne_nil '/' _)
  | cons first rest =>
    rw [parse_uri_relative h hpieces]
    by_cases hhost : first = editorHost
    · have hslash : ∀ segment ∈ Uri.Segments.settle [] rest, '/' ∉ segment :=
        Uri.Segments.forall_settle List.not_mem_nil (by simp) fun segment hs _ =>
          Text.not_mem_of_mem_pieces (by rw [hpieces]; exact List.mem_cons_of_mem first hs)
      have hname := not_congr (Uri.dropWhile_pathOf_eq_nil_iff hslash)
      rw [if_pos hhost]
      constructor
      · rintro ⟨read, hread, -⟩
        have hne := (ofParts_editorHost_eq_ok_iff.mp hread).1
        obtain ⟨segment, hs⟩ := not_forall.mp (hname.mp hne)
        rw [Classical.not_imp] at hs
        exact ⟨rest, by rw [hhost], segment, hs⟩
      · rintro ⟨rest', hrest, segment, hs, hne⟩
        obtain rfl := (List.cons.inj hrest).2
        -- An editor is no file, so whatever is read here is misread.
        refine ⟨_, ofParts_editorHost_eq_ok_iff.mpr ⟨?_, rfl⟩, id⟩
        rw [ne_eq, hname]
        exact fun hall => hne (hall segment hs)
    · rw [if_neg hhost]
      constructor
      · rintro ⟨read, hread, -⟩
        simp at hread
      · rintro ⟨rest', hrest, -⟩
        exact absurd (List.cons.inj hrest).1 hhost

theorem misread_editor_iff (id : Text) :
    (∃ read, parse (uri (.editor id)) = .ok read ∧ ¬ Same read (.editor id)) ↔
      id.head? = some '/' ∧ ∃ c ∈ id, c ≠ '/' := by
  rw [parse_uri_name]
  by_cases hdots : id = ['.'] ∨ id = ['.', '.']
  · -- Dots leave an empty name, which is refused.
    constructor
    · rintro ⟨read, hread, -⟩
      exfalso
      refine (ofParts_editorHost_eq_ok_iff.mp hread).1 ?_
      rcases hdots with rfl | rfl <;> decide
    · rintro ⟨hhead, -⟩
      rcases hdots with rfl | rfl <;> simp at hhead
  rw [not_or] at hdots
  have hsettle : Uri.Segments.settle [] [id] = [id] := by
    rw [Uri.Segments.settle, if_neg hdots.2, if_neg hdots.1]
    rfl
  have hpath : (Uri.pathOf [id]).dropWhile (· == '/') = id.dropWhile (· == '/') := by
    rw [Uri.pathOf_of_ne_nil (by simp), List.intercalate_singleton,
      List.dropWhile_cons_of_pos (by decide)]
  have hempty : id.dropWhile (· == '/') ≠ [] ↔ ∃ c ∈ id, c ≠ '/' := by
    rw [ne_eq, List.dropWhile_eq_nil_iff]
    simp
  have hkept : id.dropWhile (· == '/') ≠ id ↔ id.head? = some '/' := by
    cases id with
    | nil => simp
    | cons c rest =>
      rw [List.head?_cons, Option.some.injEq, ne_eq, List.dropWhile_eq_self_iff]
      simp
  rw [hsettle]
  constructor
  · rintro ⟨read, hread, hdiffers⟩
    obtain ⟨hne, rfl⟩ := ofParts_editorHost_eq_ok_iff.mp hread
    rw [hpath] at hne hdiffers
    exact ⟨hkept.mp hdiffers, hempty.mp hne⟩
  · rintro ⟨hhead, hc⟩
    refine ⟨_, ofParts_editorHost_eq_ok_iff.mpr ⟨?_, rfl⟩, ?_⟩
    · rw [hpath]
      exact hempty.mpr hc
    · rw [hpath]
      exact hkept.mpr hhead

theorem misread_iff (target : Target) :
    (∃ read, parse target.uri = .ok read ∧ ¬ Same read target) ↔ target.Misdirected := by
  cases target with
  | editor id => exact misread_editor_iff id
  | file p =>
    by_cases habsolute : p.isAbsolute = true
    · rw [Misdirected, if_pos habsolute]
      exact misread_absolute_iff habsolute
    · rw [Misdirected, if_neg habsolute]
      exact misread_relative_iff habsolute

theorem same_of_same : ∀ {r s t : Target}, Same r s → Same r t → Same s t
  | .file _, .file _, .file _, hs, ht => Eq.trans (α := List Path.Component) hs.symm ht
  | .editor _, .editor _, .editor _, hs, ht => Eq.trans (α := Text) hs.symm ht

/-- A URI that reads back as another target was written for a misdirected one.  That of an absolute
path is always read as a path, and of two targets that are not misdirected only the same have a URI
in common that reads back. -/
theorem uri_names_one_target (target : Target) :
    ((∃ read, parse target.uri = .ok read ∧ ¬ Same read target) ↔ target.Misdirected) ∧
    (∀ p : Path, target = .file p → p.isAbsolute = true →
      ∃ q, parse target.uri = .ok (.file q)) ∧
    ∀ other : Target, ¬ target.Misdirected → ¬ other.Misdirected → target.uri = other.uri →
      (∃ read, parse other.uri = .ok read) → Same target other := by
  refine ⟨misread_iff target, ?_, ?_⟩
  · rintro p rfl habsolute
    obtain ⟨t, ht⟩ := Path.isAbsolute_iff.mp habsolute
    exact ⟨_, parse_uri_absolute ht⟩
  · intro other htarget hother huri ⟨read, hread⟩
    have hreads : ∀ u : Target, ¬ u.Misdirected → parse u.uri = .ok read → Same read u := by
      intro u hu hparse
      by_contra hdiffers
      exact hu ((misread_iff u).mp ⟨read, hparse, hdiffers⟩)
    exact same_of_same (hreads target htarget (by rw [huri, hread])) (hreads other hother hread)

/-- A relative path below `editor` has the URI of an editor; from the root the path has its own. -/
theorem uri_names_one_target_editor :
    let relative := Target.file (Path.ofString "editor/17")
    let absolute := Path.ofString "/editor/17"
    relative.Misdirected ∧ (∃ read, parse relative.uri = .ok read ∧ ¬ Same read relative) ∧
      absolute.isAbsolute = true ∧ (∃ q, parse (uri (.file absolute)) = .ok (.file q)) ∧
      ¬ (Target.file absolute).Misdirected ∧ Same (.file absolute) (.file absolute) := by
  intro relative absolute
  have hrelative : relative.Misdirected := by
    refine ⟨["17".toList], ?_, "17".toList, by decide, by decide⟩
    rw [Path.ofString, Path.shown_ofText]
    decide
  have habsolute : absolute.isAbsolute = true := by decide
  have hplain : ¬ (Target.file absolute).Misdirected := by
    rw [Misdirected, if_pos habsolute, not_or, not_forall]
    exact ⟨⟨_, not_not.mpr rfl⟩, by decide⟩
  have hmisread := (uri_names_one_target relative).1
  obtain ⟨-, hfile, hone⟩ := uri_names_one_target (.file absolute)
  obtain ⟨q, hq⟩ := hfile absolute rfl habsolute
  exact ⟨hrelative, hmisread.mpr hrelative, habsolute, ⟨q, hq⟩, hplain,
    hone _ hplain hplain rfl ⟨_, hq⟩⟩

/-- Not every URI that reads back names its target. -/
theorem uri_below_editor :
    parse (uri (.file (Path.ofString "editor/17"))) = .ok (.editor "17".toList) ∧
      ¬ ∀ target read, parse (uri target) = .ok read → Same read target := by
  have hpieces : Text.pieces '/' (Path.ofString "editor/17").shown =
      [editorHost, "17".toList] := by
    rw [Path.ofString, Path.shown_ofText]
    decide
  have hread : parse (uri (.file (Path.ofString "editor/17"))) = .ok (.editor "17".toList) := by
    rw [parse_uri_relative (by decide) hpieces, if_pos rfl]
    exact ofParts_editorHost_eq_ok_iff.mpr (by decide)
  exact ⟨hread, fun h => h _ _ hread⟩

end Target
end SketchPreview
