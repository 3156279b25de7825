import SketchPreview.Proofs.Text.Pieces
import SketchPreview.Path

/-!
The paths below and above a path, by their components.

An entry of a directory has the components of the directory and one more (`components_child`).  The
paths above a path are written anew from its first components; read again they have just these
(`components_ofComponents`), and nothing comes into them that was not in the path.  `Passes` says
what remains of all that for someone who looks the paths up: along `p` one passes what `q` names.
-/

namespace SketchPreview
namespace Path

namespace Component

theorem piece_of_ofPiece? {piece : List UInt8} {c : Component} (h : ofPiece? piece = some c) :
    c.piece = piece := by
  rw [ofPiece?] at h
  split at h
  · simp at h
  split at h
  · rename_i hparent
    rw [← Option.some.inj h, beq_iff_eq.mp hparent]
    rfl
  · rw [← Option.some.inj h]
    rfl

theorem ofPiece?_eq_name {piece : List UInt8} (hnil : piece ≠ []) (hdot : piece ≠ [dot])
    (hparent : piece ≠ [dot, dot]) : ofPiece? piece = some (.name piece) := by
  simp [ofPiece?, hnil, hdot, hparent]

theorem map_piece_filterMap (pieces : List (List UInt8)) :
    ((pieces.filterMap ofPiece?).map piece).Sublist pieces := by
  induction pieces with
  | nil => exact List.Sublist.slnil
  | cons first pieces ih =>
    cases hc : ofPiece? first with
    | none =>
      rw [List.filterMap_cons_none hc]
      exact ih.cons first
    | some c =>
      rw [List.filterMap_cons_some hc, List.map_cons, piece_of_ofPiece? hc]
      exact ih.cons_cons first

/-- A component that is read from its own piece. -/
def Plain (c : Component) : Prop := ofPiece? c.piece = some c ∧ separator ∉ c.piece

theorem Plain.ne_root {c : Component} (h : c.Plain) : c ≠ .root := by
  rintro rfl
  exact absurd h.1 (by decide)

theorem filterMap_plain {cs : List Component} (h : ∀ c ∈ cs, c.Plain) :
    (cs.map piece).filterMap ofPiece? = cs := by
  induction cs with
  | nil => rfl
  | cons c cs ih =>
    rw [List.map_cons, List.filterMap_cons_some (h c List.mem_cons_self).1,
      ih fun d hd => h d (List.mem_cons_of_mem c hd)]

end Component

/-- The components that stand between the separators of a path. -/
def parts (p : Path) : List Component :=
  (Text.pieces separator p.bytes).filterMap Component.ofPiece?

theorem components_eq (p : Path) : p.components = p.leading ++ p.parts := rfl

theorem plain_of_mem_parts {p : Path} {c : Component} (h : c ∈ p.parts) : c.Plain := by
  obtain ⟨piece, hpiece, hc⟩ := List.mem_filterMap.mp h
  have heq := Component.piece_of_ofPiece? hc
  exact ⟨by rw [heq, hc], by rw [heq]; exact Text.not_mem_of_mem_pieces hpiece⟩

theorem leading_cases (p : Path) :
    (p.isAbsolute = true ∧ p.leading = [.root]) ∨
      (p.isAbsolute = false ∧ (p.leading = [.current] ∧
        (Text.pieces separator p.bytes).head? = some [dot] ∨ p.leading = [])) := by
  cases habsolute : p.isAbsolute with
  | true => exact Or.inl ⟨rfl, by simp [leading, habsolute]⟩
  | false =>
    right
    refine ⟨rfl, ?_⟩
    by_cases hdot : (Text.pieces separator p.bytes).head? = some [dot]
    · exact Or.inl ⟨by simp [leading, habsolute, hdot], hdot⟩
    · exact Or.inr (by simp [leading, habsolute, hdot])

theorem isAbsolute_iff_head? (p : Path) :
    p.isAbsolute = true ↔ p.components.head? = some .root := by
  rcases p.leading_cases with ⟨habsolute, hleading⟩ | ⟨hrelative, ⟨hleading, -⟩ | hleading⟩
  · simp [components_eq, hleading, habsolute]
  · simp [components_eq, hleading, hrelative]
  · rw [components_eq, hleading, hrelative, List.nil_append]
    simp only [Bool.false_eq_true, false_iff]
    intro hhead
    exact (plain_of_mem_parts (List.mem_of_head? hhead)).ne_root rfl

theorem leading_congr {p q : Path} (habsolute : p.isAbsolute = q.isAbsolute)
    (hfirst : (Text.pieces separator p.bytes).head? = (Text.pieces separator q.bytes).head?) :
    p.leading = q.leading := by
  rw [leading, leading, habsolute, hfirst]

theorem bytes_ne_nil {p : Path} (h : p.components ≠ []) : p.bytes ≠ [] := by
  intro hnil
  obtain ⟨bytes⟩ := p
  dsimp only at hnil
  subst hnil
  exact h rfl

theorem components_ne_nil {p : Path} (h : p.bytes ≠ []) : p.components ≠ [] := by
  obtain ⟨bytes⟩ := p
  obtain ⟨b, rest, rfl⟩ := List.exists_cons_of_ne_nil h
  by_cases hb : b = separator
  · simp [components, leading, isAbsolute, hb]
  · obtain ⟨piece, more, hrest⟩ :=
      List.exists_cons_of_ne_nil (Text.pieces_ne_nil separator rest)
    have hpieces : Text.pieces separator (b :: rest) = (b :: piece) :: more :=
      Text.pieces_append (a := [b]) (by simpa using Ne.symm hb) hrest
    by_cases hdot : b :: piece = [dot]
    · simp [components, leading, isAbsolute, hb, hpieces, hdot]
    · obtain ⟨c, hc⟩ : ∃ c, Component.ofPiece? (b :: piece) = some c := by
        rw [Component.ofPiece?, if_neg (by simpa using hdot)]
        split
        · exact ⟨_, rfl⟩
        · exact ⟨_, rfl⟩
      rw [components, hpieces, List.filterMap_cons_some hc]
      simp

/-! ## Below a path -/

theorem components_child (p : Path) {name : List UInt8} (h : (Component.name name).Plain) :
    (p.child name).components = p.components ++ [.name name] := by
  obtain ⟨hname, hslash⟩ : Component.ofPiece? name = some (.name name) ∧ separator ∉ name := h
  have hparts : [name].filterMap Component.ofPiece? = [.name name] :=
    List.filterMap_cons_some hname
  by_cases hempty : p.bytes = []
  · have hchild : p.child name = ⟨name⟩ := by simp [child, hempty]
    have hpieces := Text.pieces_of_not_mem hslash
    have habsolute : (⟨name⟩ : Path).isAbsolute = false := by
      rw [isAbsolute, beq_eq_false_iff_ne]
      exact fun hhead => hslash (List.mem_of_head? hhead)
    have hdot : name ≠ [dot] := by
      rintro rfl
      exact absurd hname (by decide)
    have hp : p.components = [] := by
      obtain ⟨bytes⟩ := p
      subst hempty
      rfl
    rw [hchild, hp, components_eq, parts, hpieces, hparts, leading, habsolute, hpieces]
    simp [hdot]
  -- A separator at the end is not written twice.
  obtain ⟨t, hchild, hbytes⟩ : ∃ t, p.child name = ⟨t ++ separator :: name⟩ ∧
      (p.bytes = t ∨ p.bytes = t ++ [separator]) := by
    by_cases hlast : p.bytes.getLast? = some separator
    · obtain ⟨t, ht⟩ := List.getLast?_eq_some_iff.mp hlast
      refine ⟨t, ?_, Or.inr ht⟩
      simp [child, ht]
    · exact ⟨p.bytes, by simp [child, hempty, hlast], Or.inl rfl⟩
  have hpieces := Text.pieces_mark_append t hslash
  have hclosed := Text.pieces_mark_append t (List.not_mem_nil (a := separator))
  have hfirst : (Text.pieces separator t ++ [name]).head? = (Text.pieces separator t).head? := by
    rw [List.head?_append, List.head?_eq_some_head (Text.pieces_ne_nil separator t), Option.or]
  have hleading : (⟨t ++ separator :: name⟩ : Path).leading = p.leading := by
    apply leading_congr
    · cases t with
      | nil => rcases hbytes with hbytes | hbytes <;> simp_all [isAbsolute]
      | cons b t => rcases hbytes with hbytes | hbytes <;> simp [isAbsolute, hbytes]
    · rw [hpieces, hfirst]
      rcases hbytes with hbytes | hbytes
      · rw [hbytes]
      · rw [hbytes, hclosed, List.head?_append,
          List.head?_eq_some_head (Text.pieces_ne_nil separator t), Option.or]
  rw [hchild, components_eq, components_eq, hleading, parts, parts, hpieces, List.filterMap_append,
    hparts]
  rcases hbytes with hbytes | hbytes
  · rw [hbytes, List.append_assoc]
  · rw [hbytes, hclosed, List.filterMap_append]
    simp [Component.ofPiece?]

/-! ## Separators at the end -/

theorem components_append_separator {t : List UInt8} (hne : t ≠ []) :
    (⟨t ++ [separator]⟩ : Path).components = (⟨t⟩ : Path).components := by
  have hclosed := Text.pieces_mark_append t (List.not_mem_nil (a := separator))
  have hleading : (⟨t ++ [separator]⟩ : Path).leading = (⟨t⟩ : Path).leading := by
    apply leading_congr
    · cases t with
      | nil => exact absurd rfl hne
      | cons b t => rfl
    · rw [hclosed, List.head?_append,
        List.head?_eq_some_head (Text.pieces_ne_nil separator t), Option.or]
  rw [components_eq, components_eq, hleading, parts, parts, hclosed, List.filterMap_append]
  simp [Component.ofPiece?]

theorem components_append_separators {t seps : List UInt8} (hne : t ≠ [])
    (hseps : ∀ b ∈ seps, b = separator) :
    (⟨t ++ seps⟩ : Path).components = (⟨t⟩ : Path).components := by
  induction seps generalizing t with
  | nil => rw [List.append_nil]
  | cons b seps ih =>
    obtain rfl := hseps b List.mem_cons_self
    rw [List.append_cons, ih (by simp) fun b hb => hseps b (List.mem_cons_of_mem _ hb),
      components_append_separator hne]

/-! ## Above a path -/

section Above

variable {p : Path} {front : List Component} (hne : front ≠ []) (h : front <+: p.components)

include hne h

theorem prefix_absolute (habsolute : p.isAbsolute = true) :
    ∃ b rest, p.bytes = separator :: b ∧ front = .root :: rest ∧ (∀ c ∈ rest, c.Plain) ∧
      (rest.map Component.piece).Sublist (Text.pieces separator b) := by
  obtain ⟨bytes⟩ := p
  obtain ⟨b, rfl⟩ : ∃ b, bytes = separator :: b := by
    cases bytes with
    | nil => simp [isAbsolute] at habsolute
    | cons first b => exact ⟨b, by simpa [isAbsolute] using habsolute⟩
  have hparts : parts ⟨separator :: b⟩ =
      (Text.pieces separator b).filterMap Component.ofPiece? := by
    rw [parts, Text.pieces_cons_mark, List.filterMap_cons_none rfl]
  obtain ⟨c, rest, rfl⟩ := List.exists_cons_of_ne_nil hne
  rw [components_eq, leading, if_pos habsolute, List.singleton_append,
    List.cons_prefix_cons] at h
  obtain ⟨rfl, hrest⟩ := h
  refine ⟨b, rest, rfl, rfl, fun c hc => plain_of_mem_parts (hrest.subset hc), ?_⟩
  rw [hparts] at hrest
  exact (hrest.sublist.map _).trans (Component.map_piece_filterMap _)

theorem prefix_relative (hrelative : p.isAbsolute = false) :
    (front.map Component.piece).Sublist (Text.pieces separator p.bytes) ∧
      ∃ lead rest, front = lead ++ rest ∧ (lead = [.current] ∨ lead = []) ∧
        ∀ c ∈ rest, c.Plain := by
  rcases p.leading_cases with ⟨habsolute, -⟩ | ⟨-, ⟨hleading, hdot⟩ | hleading⟩
  · simp [hrelative] at habsolute
  · obtain ⟨pieces, hpieces⟩ : ∃ pieces, Text.pieces separator p.bytes = [dot] :: pieces :=
      List.head?_eq_some_iff.mp hdot
    have hparts : p.parts = pieces.filterMap Component.ofPiece? := by
      rw [parts, hpieces, List.filterMap_cons_none rfl]
    obtain ⟨c, rest, rfl⟩ := List.exists_cons_of_ne_nil hne
    rw [components_eq, hleading, List.singleton_append, List.cons_prefix_cons] at h
    obtain ⟨rfl, hrest⟩ := h
    refine ⟨?_, [.current], rest, rfl, Or.inl rfl,
      fun c hc => plain_of_mem_parts (hrest.subset hc)⟩
    rw [hparts] at hrest
    rw [hpieces]
    exact ((hrest.sublist.map _).trans (Component.map_piece_filterMap _)).cons_cons [dot]
  · rw [components_eq, hleading, List.nil_append] at h
    refine ⟨(h.sublist.map _).trans (Component.map_piece_filterMap _), [], front, rfl, Or.inr rfl,
      fun c hc => plain_of_mem_parts (h.subset hc)⟩

end Above

theorem ofComponents_relative {front : List Component} (h : front.head? ≠ some .root) :
    ofComponents front = ⟨[separator].intercalate (front.map Component.piece)⟩ := by
  match front with
  | [] => rfl
  | .root :: rest => simp at h
  | .current :: rest | .parent :: rest | .name n :: rest => rfl

theorem components_root_cons {rest : List Component} (h : ∀ c ∈ rest, c.Plain) :
    (ofComponents (.root :: rest)).components = .root :: rest := by
  have hparts : parts (ofComponents (.root :: rest)) = rest := by
    rw [parts, ofComponents, Text.pieces_cons_mark, List.filterMap_cons_none rfl]
    cases rest with
    | nil => rfl
    | cons c rest =>
      rw [Text.pieces_intercalate (by simp), Component.filterMap_plain h]
      simpa using ⟨(h c List.mem_cons_self).2, fun d hd => (h d (List.mem_cons_of_mem c hd)).2⟩
  rw [components_eq, hparts]
  rfl

theorem components_relative {lead rest : List Component} (hlead : lead = [.current] ∨ lead = [])
    (hne : lead ++ rest ≠ []) (h : ∀ c ∈ rest, c.Plain) :
    (ofComponents (lead ++ rest)).components = lead ++ rest := by
  obtain ⟨c, more, hfirst⟩ := List.exists_cons_of_ne_nil hne
  -- The first piece is the dot that leads, or that of a component.
  have hc : lead = [.current] ∧ c = .current ∨ lead = [] ∧ c.Plain := by
    rcases hlead with rfl | rfl
    · exact Or.inl ⟨rfl, (List.cons.inj hfirst).1.symm⟩
    · exact Or.inr ⟨rfl, h c (by rw [← List.nil_append rest, hfirst]; exact List.mem_cons_self)⟩
  have hroot : (lead ++ rest).head? ≠ some .root := by
    rw [hfirst]
    rcases hc with ⟨-, rfl⟩ | ⟨-, hplain⟩
    · simp
    · simpa using hplain.ne_root
  have hslash : ∀ piece ∈ (lead ++ rest).map Component.piece, separator ∉ piece := by
    intro piece hpiece
    obtain ⟨d, hd, rfl⟩ := List.mem_map.mp hpiece
    rcases List.mem_append.mp hd with hd | hd
    · rcases hlead with rfl | rfl
      · rw [List.mem_singleton.mp hd]
        decide
      · simp at hd
    · exact (h d hd).2
  have hpieces := Text.pieces_intercalate (by simpa using hne) hslash
  have hpiece : c.piece ≠ [] ∧ (lead = [] → c.piece ≠ [dot]) := by
    rcases hc with ⟨rfl, rfl⟩ | ⟨-, hplain, -⟩
    · exact ⟨by decide, by simp⟩
    · constructor
      · intro hnil
        simp [hnil, Component.ofPiece?] at hplain
      · intro _ hdot
        simp [hdot, Component.ofPiece?] at hplain
  have hrelative :
      (⟨[separator].intercalate ((lead ++ rest).map Component.piece)⟩ : Path).isAbsolute = false := by
    rw [isAbsolute, beq_eq_false_iff_ne]
    intro hhead
    obtain ⟨b, hb⟩ := List.head?_eq_some_iff.mp hhead
    dsimp only at hb
    rw [hb, Text.pieces_cons_mark, hfirst, List.map_cons, List.cons.injEq] at hpieces
    exact hpiece.1 hpieces.1.symm
  rw [ofComponents_relative hroot, components_eq, parts, leading, hrelative, hpieces,
    List.map_append, List.filterMap_append, Component.filterMap_plain h]
  rcases hlead with rfl | rfl
  · rfl
  · rw [List.nil_append] at hfirst
    simp [hfirst, hpiece.2 rfl]

theorem components_ofComponents {p : Path} {front : List Component} (hne : front ≠ [])
    (h : front <+: p.components) : (ofComponents front).components = front := by
  cases habsolute : p.isAbsolute with
  | true =>
    obtain ⟨b, rest, -, rfl, hplain, -⟩ := prefix_absolute hne h habsolute
    exact components_root_cons hplain
  | false =>
    obtain ⟨-, lead, rest, rfl, hlead, hplain⟩ := prefix_relative hne h habsolute
    exact components_relative hlead hne hplain

/-- Whoever looks `p` up passes what `q` names, or ends there. -/
structure Passes (p q : Path) : Prop where
  components : q.components <+: p.components
  bytes_ne_nil : q.bytes ≠ []
  nul_mem : 0 ∈ q.bytes → 0 ∈ p.bytes
  length_le : q.bytes.length ≤ p.bytes.length

theorem Passes.trans {p q r : Path} (h : p.Passes q) (h' : q.Passes r) : p.Passes r where
  components := h'.components.trans h.components
  bytes_ne_nil := h'.bytes_ne_nil
  nul_mem := h.nul_mem ∘ h'.nul_mem
  length_le := Nat.le_trans h'.length_le h.length_le

theorem Passes.isAbsolute_eq {p q : Path} (h : p.Passes q) : q.isAbsolute = p.isAbsolute := by
  obtain ⟨back, hback⟩ := h.components
  obtain ⟨c, more, hq⟩ := List.exists_cons_of_ne_nil (components_ne_nil h.bytes_ne_nil)
  rw [Bool.eq_iff_iff, isAbsolute_iff_head?, isAbsolute_iff_head?, ← hback, hq]
  rfl

theorem passes_child {p : Path} {name : List UInt8} (hne : p.bytes ≠ [])
    (h : (Component.name name).Plain) : (p.child name).Passes p where
  components := by
    rw [components_child p h]
    exact List.prefix_append _ _
  bytes_ne_nil := hne
  nul_mem := by
    intro h
    rw [child]
    split <;> exact List.mem_append_left _ h
  length_le := by
    rw [child]
    split <;> simp

theorem passes_ofComponents {p : Path} {front : List Component} (hne : front ≠ [])
    (h : front <+: p.components) : p.Passes (ofComponents front) := by
  have hcomponents := components_ofComponents hne h
  have hnul : ∀ {parts pieces : List (List UInt8)}, parts.Sublist pieces →
      0 ∈ [separator].intercalate parts → 0 ∈ [separator].intercalate pieces := by
    intro parts pieces hsub hmem
    rw [Text.mem_intercalate_iff (by decide)] at hmem ⊢
    obtain ⟨part, hpart, hzero⟩ := hmem
    exact ⟨part, hsub.subset hpart, hzero⟩
  suffices hbytes : (0 ∈ (ofComponents front).bytes → 0 ∈ p.bytes) ∧
      (ofComponents front).bytes.length ≤ p.bytes.length from
    ⟨by rwa [hcomponents], bytes_ne_nil (by rwa [hcomponents]), hbytes.1, hbytes.2⟩
  cases habsolute : p.isAbsolute with
  | true =>
    obtain ⟨b, rest, hp, rfl, -, hsub⟩ := prefix_absolute hne h habsolute
    have hlength := Text.length_intercalate_le separator hsub
    have hzero := hnul hsub
    rw [Text.intercalate_pieces] at hlength hzero
    rw [hp, ofComponents]
    refine ⟨fun hmem => ?_, Nat.succ_le_succ hlength⟩
    rcases List.mem_cons.mp hmem with hmem | hmem
    · exact absurd hmem (by decide)
    · exact List.mem_cons_of_mem _ (hzero hmem)
  | false =>
    obtain ⟨hsub, -⟩ := prefix_relative hne h habsolute
    have hlength := Text.length_intercalate_le separator hsub
    have hzero := hnul hsub
    have hroot : front.head? ≠ some .root := by
      obtain ⟨c, more, rfl⟩ := List.exists_cons_of_ne_nil hne
      obtain ⟨back, hback⟩ := h
      intro hhead
      have hp : p.components.head? = some .root := by rw [← hback, List.cons_append, ← hhead]; rfl
      rw [← isAbsolute_iff_head?, habsolute] at hp
      exact Bool.false_ne_true hp
    rw [Text.intercalate_pieces] at hlength hzero
    rw [ofComponents_relative hroot]
    exact ⟨hzero, hlength⟩

theorem mem_chain_iff {q : Path} {above : List Component} :
    q ∈ chain above ↔ ∃ rest, rest ≠ [] ∧ rest <:+ above ∧ q = ofComponents rest.reverse := by
  induction above with
  | nil =>
    simp only [chain, List.not_mem_nil, List.suffix_nil, false_iff]
    rintro ⟨rest, hne, rfl, -⟩
    exact hne rfl
  | cons c above ih =>
    rw [chain, List.mem_cons, ih]
    constructor
    · rintro (rfl | ⟨rest, hne, hsuffix, rfl⟩)
      · exact ⟨c :: above, List.cons_ne_nil c above, List.suffix_refl _, rfl⟩
      · exact ⟨rest, hne, hsuffix.trans (List.suffix_cons c above), rfl⟩
    · rintro ⟨rest, hne, hsuffix, rfl⟩
      rcases List.suffix_cons_iff.mp hsuffix with rfl | hsuffix
      · exact Or.inl rfl
      · exact Or.inr ⟨rest, hne, hsuffix, rfl⟩

theorem passes_of_mem_ancestors {p q : Path} (h : q ∈ p.ancestors) : p.Passes q := by
  rw [ancestors] at h
  split at h
  · simp at h
  · rename_i c above hcomponents
    rcases List.mem_cons.mp h with rfl | h
    · refine ⟨List.prefix_refl _, bytes_ne_nil ?_, id, Nat.le_refl _⟩
      rintro hnil
      simp [hnil] at hcomponents
    · obtain ⟨rest, hne, hsuffix, rfl⟩ := mem_chain_iff.mp h
      apply passes_ofComponents (by simpa using hne)
      rw [← List.reverse_suffix, List.reverse_reverse, hcomponents]
      exact hsuffix.trans (List.suffix_cons c above)

end Path
end SketchPreview
