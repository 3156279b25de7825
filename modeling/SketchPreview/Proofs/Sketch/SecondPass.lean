import SketchPreview.Proofs.Sketch.Commute
import SketchPreview.Proofs.Sketch.Locality

/-!
What a second pass of a rewrite finds in the text that the first one wrote.

Removing the density is complete where every place of its name belongs to a call that is found:
taking calls away joins what stands around them, but a call begins behind a character that ends
every identifier, so no name is put together over a seam, and nothing of the name is left
(`dropPixelDensity_again`).

Sizing the surface writes text of the source again, and there a second pass may find more.
`sizeFullScreen_again_iff` says exactly where: at a name between the calls whose arguments close
only once the calls behind it are sized (`CompletedBetween`), and at a name in a renderer that is
kept (`KeptInRenderer`).  `sizeFullScreen_again_twice` has one of each.
-/

namespace SketchPreview
namespace Sketch

/-! ## Names that calls cover -/

/-- Every place of a name in a source that continues no identifier is the beginning of a call that
is found, or lies inside of one. -/
def Call.Covered (name source : Text) : Prop :=
  ∀ before tail, source = before ++ tail → Apart before.getLast? → name <+: tail →
    ∃ c ∈ findAll name source, c.start ≤ Text.byteSize before ∧ Text.byteSize before < c.stop

namespace Cut

section Name

variable {name : Text} (hne : name ≠ []) (hid : ∀ x ∈ name, Text.isIdentifierChar x = true)

include hne hid in
theorem laid_behind (before t : Text)
    (h : ∀ skipped tail, t = skipped ++ tail → Apart (before ++ skipped).getLast? → name <+: tail →
      ∃ c ∈ (behind name before t).calls, c.start ≤ Text.byteSize (before ++ skipped) ∧
        Text.byteSize (before ++ skipped) < c.stop) :
    (behind name before t).Laid name before := by
  induction before, t using behind_induction hne hid with
  | nil before => exact clear_nil hne before
  | pass before x t hf ih =>
    have hlater : ∀ c ∈ (behind name (before ++ [x]) t).calls,
        Text.byteSize (before ++ [x]) ≤ c.start :=
      (placed_scan name _ _ t).le_start
    have hpos := Text.byteSize_cons_pos x []
    rw [Text.byteSize_append] at hlater
    rw [calls_prepend] at h
    refine Laid.prepend (text_scan name _ _ t) ?_ (ih ?_)
    · intro hplace
      obtain ⟨hapart, hname⟩ := hplace
      obtain ⟨c, hc, hstart, -⟩ := h [] (x :: t) rfl (by rwa [List.append_nil]) hname
      have hle := hlater c hc
      rw [List.append_nil] at hstart
      omega
    · intro skipped tail ht hapart hname
      rw [List.append_assoc] at hapart ⊢
      exact h (x :: skipped) tail (by rw [ht]; rfl) hapart hname
  | call before t c rest hf ih =>
    have hbegins := Call.begins_iff.mpr ⟨rest, hf⟩
    have hstop := Call.stop_eq hbegins.start_eq
    have hafter := apart_getLast?_append hbegins.apart c.apart_text
    obtain rfl : t = c.text ++ rest := Call.text_of_front? hf
    refine ⟨clear_nil hne before, by rw [List.append_nil]; exact hbegins.apart, ?_,
      (ih ?_).of_apart hafter apart_none⟩
    · rw [if_pos hbegins.callee_eq]
      exact hbegins.complete
    · intro skipped tail ht hapart hname
      rw [List.append_assoc] at hapart ⊢
      obtain ⟨e, he, hstart, hend⟩ := h (c.text ++ skipped) tail
        (by rw [ht, List.append_assoc]) hapart hname
      rcases List.mem_cons.mp he with rfl | he
      · -- The place is behind this call, so it is another one that covers it.
        rw [← List.append_assoc, Text.byteSize_append, ← hstop] at hend
        omega
      · exact ⟨e, he, hstart, hend⟩

include hid in
/-- A laid out cut whose calls are all filled with clean text is clear. -/
theorem Laid.clear_fill {before : Text} {k : Cut} (h : k.Laid name before) {f : Call → Text}
    (hf : ∀ c ∈ k.calls, Clean name (f c)) : Clear name before (k.fill f) := by
  induction k generalizing before with
  | last t => exact h
  | call gap c after ih =>
    obtain ⟨hgap, hapart, -, hafter⟩ := h
    obtain ⟨hclear, hend⟩ := hf c List.mem_cons_self
    have hrest := ih hafter fun e he => hf e (List.mem_cons_of_mem c he)
    rw [fill, List.append_assoc]
    refine hgap.append hid (eq_nil_or_parted hapart _) ?_
    exact (hclear.of_apart apart_none).append hid (Or.inr (Or.inl hend))
      (hrest.of_apart apart_none)

end Name

end Cut

/-- If every place of the name for the density starts a call or lies in one, none is left when the
calls are removed, however they stood: no call is found any more, and removing again changes
nothing. -/
theorem dropPixelDensity_again (source : Text) (h : Call.Covered pixelDensity source) :
    Clear pixelDensity [] (dropPixelDensity source) ∧
      Call.findAll pixelDensity (dropPixelDensity source) = [] ∧
      dropPixelDensity (dropPixelDensity source) = dropPixelDensity source := by
  have hne : pixelDensity ≠ [] := by decide
  have hid := isIdentifierChar_of_mem_pixelDensity
  have hlaid : (Cut.of pixelDensity source).Laid pixelDensity [] :=
    Cut.laid_behind hne hid [] source h
  have hclear : Clear pixelDensity [] (dropPixelDensity source) :=
    hlaid.clear_fill hid fun _ _ => ⟨clear_nil hne [], apart_none⟩
  have hcut : Cut.of pixelDensity (dropPixelDensity source) = .last (dropPixelDensity source) :=
    Cut.behind_of_clear hne hid hclear
  refine ⟨hclear, ?_, ?_⟩
  · rw [Call.findAll, hcut, Cut.calls]
  · rw [dropPixelDensity, Call.replaceAll, hcut, Cut.fill]

/-- A name that continues an identifier, a call in a call, one glued to another and one in a
string. -/
theorem dropPixelDensity_again_glued :
    let source :=
      "xpixelDensity(pixelDensity(pixelDensity(1)))pixelDensity ()\"pixelDensity(')')\"y".toList
    Call.Covered pixelDensity source ∧
      dropPixelDensity source = "xpixelDensity()\"\"y".toList ∧
      Clear pixelDensity [] (dropPixelDensity source) ∧
      Call.findAll pixelDensity (dropPixelDensity source) = [] ∧
      dropPixelDensity (dropPixelDensity source) = dropPixelDensity source := by
  intro source
  have hall : Call.findAll pixelDensity source =
      [⟨14, pixelDensity, [], "pixelDensity(1)".toList⟩, ⟨44, pixelDensity, [' '], []⟩,
        ⟨60, pixelDensity, [], "')'".toList⟩] :=
    (Call.calls_behind_eq (by decide) isIdentifierChar_of_mem_pixelDensity [] source
      (Nat.le_refl 0)).trans (by decide +kernel)
  have hcovered : Call.Covered pixelDensity source := by
    apply Text.forall_place_of_forall_take
    rw [hall]
    decide +kernel
  have hdropped : dropPixelDensity source = "xpixelDensity()\"\"y".toList := by decide +kernel
  exact ⟨hcovered, hdropped, dropPixelDensity_again source hcovered⟩

/-! ## Where calls begin -/

namespace Call

/-- A text begins with a complete call of `callee`. -/
def Heads (callee t : Text) : Prop := ∃ c, Begins callee [] t c

/-- A call begins in the text `t`, which stands behind `before` and in front of `rest`. -/
def BeginsIn (callee before t rest : Text) : Prop :=
  ∃ skipped tail, t = skipped ++ tail ∧ tail ≠ [] ∧ Apart (before ++ skipped).getLast? ∧
    Heads callee (tail ++ rest)

theorem exists_begins_iff {callee before t : Text} :
    (∃ c, Begins callee before t c) ↔ Apart before.getLast? ∧ Heads callee t := by
  constructor
  · intro h
    obtain ⟨c, hc⟩ := h
    exact ⟨hc.apart, ⟨0, c.callee, c.gap, c.arguments⟩, apart_none, rfl, hc.callee_eq,
      hc.gap_blank, hc.closed⟩
  · intro h
    obtain ⟨hapart, c, hc⟩ := h
    exact ⟨⟨Text.byteSize before, c.callee, c.gap, c.arguments⟩, hapart, rfl, hc.callee_eq,
      hc.gap_blank, hc.closed⟩

theorem prefix_of_heads {callee t : Text} (h : Heads callee t) : callee <+: t := by
  obtain ⟨c, hc⟩ := h
  obtain ⟨inner, rest, htext, -⟩ := hc.closed
  rw [htext, List.append_assoc]
  exact List.prefix_append callee _

theorem not_heads_nil {callee : Text} (hne : callee ≠ []) : ¬ Heads callee [] :=
  fun h => hne (List.prefix_nil.mp (prefix_of_heads h))

theorem findAll_eq_nil_iff {callee : Text} (hne : callee ≠ [])
    (hid : ∀ x ∈ callee, Text.isIdentifierChar x = true) (t : Text) :
    findAll callee t = [] ↔ ¬ BeginsIn callee [] t [] := by
  constructor
  · intro h hbegins
    obtain ⟨before, tail, ht, -, hapart, hheads⟩ := hbegins
    rw [List.nil_append] at hapart
    rw [List.append_nil] at hheads
    obtain ⟨c, hc⟩ := exists_begins_iff.mpr ⟨hapart, hheads⟩
    have hmem : c ∈ findAll callee t := by
      rw [mem_findAll_iff hne hid, h]
      exact ⟨⟨before, tail, ht, hc⟩, by simp⟩
    rw [h] at hmem
    simp at hmem
  · intro h
    rw [List.eq_nil_iff_forall_not_mem]
    intro c hc
    obtain ⟨before, tail, ht, hbegins⟩ := ((mem_findAll_iff hne hid t c).mp hc).1
    obtain ⟨hapart, hheads⟩ := exists_begins_iff.mp ⟨c, hbegins⟩
    refine h ⟨before, tail, ht, ?_, hapart, by rwa [List.append_nil]⟩
    intro hnil
    rw [hnil] at hheads
    exact not_heads_nil hne hheads

section BeginsIn

variable {callee before t u rest : Text}

theorem beginsIn_append : BeginsIn callee before (t ++ u) rest ↔
    BeginsIn callee before t (u ++ rest) ∨ BeginsIn callee (before ++ t) u rest := by
  constructor
  · intro h
    obtain ⟨skipped, tail, ht, htail, hapart, hheads⟩ := h
    rcases List.append_eq_append_iff.mp ht with ⟨e, rfl, rfl⟩ | ⟨e, rfl, rfl⟩
    · rw [← List.append_assoc] at hapart
      exact Or.inr ⟨e, tail, rfl, htail, hapart, hheads⟩
    · by_cases he : e = []
      · subst he
        rw [List.append_nil]
        exact Or.inr ⟨[], u, rfl, htail, by rwa [List.append_nil], hheads⟩
      · rw [List.append_assoc] at hheads
        exact Or.inl ⟨skipped, e, rfl, he, hapart, hheads⟩
  · intro h
    rcases h with ⟨skipped, tail, rfl, htail, hapart, hheads⟩ |
      ⟨skipped, tail, rfl, htail, hapart, hheads⟩
    · refine ⟨skipped, tail ++ u, List.append_assoc _ _ _, by simp [htail], hapart, ?_⟩
      rwa [List.append_assoc]
    · rw [List.append_assoc] at hapart
      exact ⟨t ++ skipped, tail, (List.append_assoc _ _ _).symm, htail, hapart, hheads⟩

theorem beginsIn_singleton {x : Char} : BeginsIn callee before [x] rest ↔
    Apart before.getLast? ∧ Heads callee (x :: rest) := by
  constructor
  · intro h
    obtain ⟨skipped, tail, ht, htail, hapart, hheads⟩ := h
    rcases List.singleton_eq_append_iff.mp ht with ⟨rfl, rfl⟩ | ⟨-, rfl⟩
    · rw [List.append_nil] at hapart
      exact ⟨hapart, hheads⟩
    · exact absurd rfl htail
  · intro h
    exact ⟨[], [x], rfl, List.cons_ne_nil x [], by rw [List.append_nil]; exact h.1, h.2⟩

theorem BeginsIn.of_apart {front : Text} (hfront : Apart front.getLast?)
    (h : BeginsIn callee before t rest) : BeginsIn callee front t rest := by
  obtain ⟨skipped, tail, ht, htail, hapart, hheads⟩ := h
  exact ⟨skipped, tail, ht, htail, apart_getLast?_exchange hapart hfront, hheads⟩

/-- No call begins in text without the first character of its name. -/
theorem not_beginsIn_of_not_mem {first : Char} {name : Text} (h : first ∉ t) :
    ¬ BeginsIn (first :: name) before t rest := by
  intro hbegins
  obtain ⟨skipped, tail, rfl, htail, -, hheads⟩ := hbegins
  obtain ⟨x, tail, rfl⟩ := List.exists_cons_of_ne_nil htail
  obtain ⟨hx, -⟩ := List.cons_prefix_cons.mp (prefix_of_heads hheads)
  apply h
  rw [hx]
  exact List.mem_append_right skipped List.mem_cons_self

end BeginsIn

end Call

/-! ## What sizing leaves to a second pass -/

/-- At a place in the text `t` behind `before` that is in none of the calls, the text begins with a
call once the calls from there on are sized. -/
def CompletedBetween (d : Dimensions) (before t : Text) (calls : List Call) : Prop :=
  ∃ skipped tail, t = skipped ++ tail ∧ Apart (before ++ skipped).getLast? ∧
    (∀ c ∈ calls, Text.byteSize (before ++ skipped) < c.start ∨
      c.stop ≤ Text.byteSize (before ++ skipped)) ∧
    Call.Heads fullScreen (sizeFullScreen d tail)

/-- In the renderer of one of the calls in the text `t` behind `before` a call begins, as the
renderer stands in the sized text. -/
def KeptInRenderer (d : Dimensions) (before t : Text) (calls : List Call) : Prop :=
  ∃ c ∈ calls, ∃ skipped tail r, t = skipped ++ c.text ++ tail ∧
    c.start = Text.byteSize (before ++ skipped) ∧ Argument.renderer? c.arguments = some r ∧
    Call.BeginsIn fullScreen [] r (')' :: sizeFullScreen d tail)

section Sized

variable {d : Dimensions} {before t : Text} {calls : List Call}

theorem completedBetween_cons {x : Char}
    (h : ∀ c ∈ calls, Text.byteSize (before ++ [x]) ≤ c.start) :
    CompletedBetween d before (x :: t) calls ↔
      (Apart before.getLast? ∧ Call.Heads fullScreen (sizeFullScreen d (x :: t))) ∨
        CompletedBetween d (before ++ [x]) t calls := by
  have hpos := Text.byteSize_cons_pos x []
  rw [Text.byteSize_append] at h
  constructor
  · intro hplace
    obtain ⟨skipped, tail, ht, hapart, hout, hheads⟩ := hplace
    cases skipped with
    | nil =>
      rw [List.append_nil] at hapart
      obtain rfl : x :: t = tail := ht
      exact Or.inl ⟨hapart, hheads⟩
    | cons y skipped =>
      obtain ⟨rfl, rfl⟩ := List.cons.inj ht
      rw [List.append_cons] at hapart hout
      exact Or.inr ⟨skipped, tail, rfl, hapart, hout, hheads⟩
  · intro hplace
    rcases hplace with ⟨hapart, hheads⟩ | ⟨skipped, tail, rfl, hapart, hout, hheads⟩
    · refine ⟨[], x :: t, rfl, by rwa [List.append_nil], fun c hc => Or.inl ?_, hheads⟩
      have hle := h c hc
      rw [List.append_nil]
      omega
    · rw [← List.append_cons] at hapart hout
      exact ⟨x :: skipped, tail, rfl, hapart, hout, hheads⟩

theorem completedBetween_call {c : Call} (hstart : c.start = Text.byteSize before)
    (h : ∀ e ∈ calls, c.stop ≤ e.start) :
    CompletedBetween d before (c.text ++ t) (c :: calls) ↔
      CompletedBetween d (before ++ c.text) t calls := by
  have hstop := Call.stop_eq hstart
  constructor
  · intro hplace
    obtain ⟨skipped, tail, ht, hapart, hout, hheads⟩ := hplace
    have hbehind := hout c List.mem_cons_self
    rw [hstart, hstop, Text.byteSize_append, Text.byteSize_append] at hbehind
    obtain ⟨e, rfl, rfl⟩ := Text.exists_append_of_byteSize_le ht (by omega)
    rw [← List.append_assoc] at hapart hout
    exact ⟨e, tail, rfl, hapart, fun a ha => hout a (List.mem_cons_of_mem c ha), hheads⟩
  · intro hplace
    obtain ⟨skipped, tail, rfl, hapart, hout, hheads⟩ := hplace
    refine ⟨c.text ++ skipped, tail, (List.append_assoc _ _ _).symm, ?_, ?_, hheads⟩
    · rwa [← List.append_assoc]
    · intro a ha
      rw [← List.append_assoc]
      rcases List.mem_cons.mp ha with rfl | ha
      · right
        rw [hstop, Text.byteSize_append (before ++ a.text)]
        omega
      · exact hout a ha

theorem keptInRenderer_append {s : Text} (h : ∀ c ∈ calls, Text.byteSize (before ++ s) ≤ c.start) :
    KeptInRenderer d before (s ++ t) calls ↔ KeptInRenderer d (before ++ s) t calls := by
  constructor
  · intro hkept
    obtain ⟨c, hc, skipped, tail, r, ht, hstart, hr, hbegins⟩ := hkept
    have hle := h c hc
    rw [hstart, Text.byteSize_append, Text.byteSize_append] at hle
    rw [List.append_assoc] at ht
    obtain ⟨e, rfl, rfl⟩ := Text.exists_append_of_byteSize_le ht (by omega)
    rw [← List.append_assoc] at hstart
    exact ⟨c, hc, e, tail, r, (List.append_assoc _ _ _).symm, hstart, hr, hbegins⟩
  · intro hkept
    obtain ⟨c, hc, skipped, tail, r, rfl, hstart, hr, hbegins⟩ := hkept
    rw [List.append_assoc] at hstart
    exact ⟨c, hc, s ++ skipped, tail, r, by simp, hstart, hr, hbegins⟩

theorem keptInRenderer_call {c : Call} (hstart : c.start = Text.byteSize before)
    (h : ∀ e ∈ calls, c.stop ≤ e.start) :
    KeptInRenderer d before (c.text ++ t) (c :: calls) ↔
      (∃ r, Argument.renderer? c.arguments = some r ∧
        Call.BeginsIn fullScreen [] r (')' :: sizeFullScreen d t)) ∨
        KeptInRenderer d (before ++ c.text) t calls := by
  rw [Call.stop_eq hstart] at h
  rw [← keptInRenderer_append h, KeptInRenderer, List.exists_mem_cons_iff, KeptInRenderer]
  refine or_congr_left ?_
  constructor
  · intro hkept
    obtain ⟨skipped, tail, r, ht, hplace, hr, hbegins⟩ := hkept
    rw [hstart, Text.byteSize_append] at hplace
    obtain rfl : skipped = [] := by
      by_contra hne
      have hpos := Text.byteSize_pos hne
      omega
    rw [List.nil_append, List.append_right_inj] at ht
    rw [ht]
    exact ⟨r, hr, hbegins⟩
  · intro hkept
    obtain ⟨r, hr, hbegins⟩ := hkept
    exact ⟨[], t, r, rfl, by rwa [List.append_nil], hr, hbegins⟩

end Sized

/-- In the new call itself a call begins only in the renderer. -/
theorem beginsIn_sizeCall (d : Dimensions) {before rest : Text} {renderer : Option Text} :
    Call.BeginsIn fullScreen before (sizeCall d renderer) rest ↔
      ∃ r, renderer = some r ∧ Call.BeginsIn fullScreen [] r (')' :: rest) := by
  have hnone : ∀ {before t rest : Text}, 'f' ∉ t → ¬ Call.BeginsIn fullScreen before t rest := by
    intro before t rest ht
    show ¬ Call.BeginsIn ('f' :: "ullScreen".toList) before t rest
    exact Call.not_beginsIn_of_not_mem ht
  have hsizes : ∀ t : Text, 'f' ∉ t → 'f' ∉ sizes d ++ t := by
    intro t ht hmem
    rcases List.mem_append.mp hmem with hmem | hmem
    · exact absurd (isDigit_or_mem_of_mem_sizes hmem) (by decide)
    · exact ht hmem
  cases renderer with
  | none =>
    rw [sizeCall_none]
    constructor
    · intro h
      exact absurd h (hnone (hsizes _ (by decide)))
    · intro h
      obtain ⟨r, hr, -⟩ := h
      simp at hr
  | some r =>
    have hspace : Apart (before ++ (sizes d ++ [',', ' '])).getLast? := by
      rw [← List.append_assoc, List.getLast?_append]
      show Apart (some ' ')
      decide
    rw [sizeCall_some, Call.beginsIn_append, or_iff_right (hnone (hsizes [',', ' '] (by decide))),
      Call.beginsIn_append, or_iff_left (hnone (by decide))]
    constructor
    · intro h
      exact ⟨r, rfl, h.of_apart apart_none⟩
    · intro h
      obtain ⟨s, hs, h⟩ := h
      obtain rfl := Option.some.inj hs
      exact h.of_apart hspace

theorem fullScreen_ne_nil : fullScreen ≠ [] := by decide

theorem fill_behind_sized (d : Dimensions) {before : Text} (h : Apart before.getLast?) (t : Text) :
    (Cut.behind fullScreen before t).fill (Call.sized d) = sizeFullScreen d t :=
  Cut.fill_behind_eq fullScreen_ne_nil isIdentifierChar_of_mem_fullScreen (fun _ _ => rfl) h t

/-- Where calls begin in a sized text.  The induction is on the scan of the text before it was
sized; of what has been passed only that its end continues no identifier is still the same. -/
theorem beginsIn_sized_iff (d : Dimensions) (before t : Text) :
    Call.BeginsIn fullScreen before ((Cut.behind fullScreen before t).fill (Call.sized d)) [] ↔
      CompletedBetween d before t (Cut.behind fullScreen before t).calls ∨
        KeptInRenderer d before t (Cut.behind fullScreen before t).calls := by
  induction before, t using
    Cut.behind_induction fullScreen_ne_nil isIdentifierChar_of_mem_fullScreen with
  | nil before =>
    have hempty : sizeFullScreen d [] = [] := by
      rw [← fill_behind_sized d (show Apart ([] : Text).getLast? from apart_none),
        Cut.behind_nil, Cut.fill]
    constructor
    · intro h
      obtain ⟨skipped, tail, ht, htail, -⟩ := h
      exact absurd (List.append_eq_nil_iff.mp ht.symm).2 htail
    · intro h
      rcases h with ⟨skipped, tail, ht, -, -, hheads⟩ | ⟨c, hc, -⟩
      · rw [(List.append_eq_nil_iff.mp ht.symm).2, hempty] at hheads
        exact absurd hheads (Call.not_heads_nil fullScreen_ne_nil)
      · simp [Cut.calls] at hc
  | pass before x t hf ih =>
    have hlater : ∀ c ∈ (Cut.behind fullScreen (before ++ [x]) t).calls,
        Text.byteSize (before ++ [x]) ≤ c.start :=
      (Cut.placed_scan fullScreen _ _ t).le_start
    have hhere : Apart before.getLast? → sizeFullScreen d (x :: t) =
        x :: (Cut.behind fullScreen (before ++ [x]) t).fill (Call.sized d) := by
      intro hbefore
      rw [← fill_behind_sized d hbefore, Cut.behind_cons fullScreen_ne_nil
        isIdentifierChar_of_mem_fullScreen hf, Cut.fill_prepend]
      rfl
    rw [Cut.fill_prepend, Cut.calls_prepend, Call.beginsIn_append, Call.beginsIn_singleton,
      List.append_nil, ih, completedBetween_cons hlater, or_assoc,
      ← keptInRenderer_append hlater, List.singleton_append]
    refine or_congr_left (and_congr_right fun hbefore => ?_)
    rw [hhere hbefore]
  | call before t c rest hf ih =>
    have hbegins := Call.begins_iff.mpr ⟨rest, hf⟩
    have hafter := apart_getLast?_append hbegins.apart c.apart_text
    have hend : Apart (before ++ c.sized d).getLast? := by
      refine apart_getLast?_append hbegins.apart ?_
      rw [Call.sized_eq, sizeCall_eq, ← List.cons_append, ← List.append_assoc,
        List.getLast?_concat]
      decide
    have hlater : ∀ e ∈ (Cut.behind fullScreen (before ++ c.text) rest).calls,
        c.stop ≤ e.start := by
      rw [Call.stop_eq hbegins.start_eq]
      exact (Cut.placed_scan fullScreen _ _ rest).le_start
    obtain rfl : t = c.text ++ rest := Call.text_of_front? hf
    have hrest : Call.BeginsIn fullScreen (before ++ c.sized d)
          ((Cut.behind fullScreen (before ++ c.text) rest).fill (Call.sized d)) [] ↔
        Call.BeginsIn fullScreen (before ++ c.text)
          ((Cut.behind fullScreen (before ++ c.text) rest).fill (Call.sized d)) [] :=
      ⟨fun h => h.of_apart hafter, fun h => h.of_apart hend⟩
    rw [Cut.fill, List.nil_append, Call.beginsIn_append, hrest, ih, Cut.calls,
      completedBetween_call hbegins.start_eq hlater, keptInRenderer_call hbegins.start_eq hlater,
      Call.sized_eq, beginsIn_sizeCall, List.append_nil, fill_behind_sized d hafter, or_left_comm]

theorem sizeFullScreen_eq_self_iff (d : Dimensions) (t : Text) :
    sizeFullScreen d t = t ↔ Call.findAll fullScreen t = [] := by
  have htext := Cut.text_of fullScreen t
  have hplaced : (Cut.of fullScreen t).Placed fullScreen 0 := Cut.placed_scan fullScreen 0 none t
  rw [sizeFullScreen, Call.replaceAll, Call.findAll]
  cases hcut : Cut.of fullScreen t with
  | last u =>
    rw [hcut, Cut.fill] at htext
    rw [Cut.fill, Cut.calls, htext]
    simp
  | call gap c after =>
    rw [hcut] at htext hplaced
    obtain ⟨-, hcallee, -⟩ := hplaced
    constructor
    · intro h
      rw [← htext, Cut.fill, Cut.fill, List.append_assoc, List.append_assoc,
        List.append_right_inj, Call.sized_eq, sizeCall_eq, Call.text, hcallee] at h
      have hs : size = 's' :: "ize".toList := rfl
      have hf : fullScreen = 'f' :: "ullScreen".toList := rfl
      rw [hs, hf] at h
      simp only [List.cons_append, List.cons.injEq] at h
      exact absurd h.1 (by decide)
    · intro h
      simp [Cut.calls] at h

/-- A second pass, in whatever size, changes nothing exactly if it finds no call; and it finds one
exactly where a name between the calls is completed by sizing the calls behind it, or where a name
is kept in a renderer. -/
theorem sizeFullScreen_again_iff (d e : Dimensions) (source : Text) :
    (sizeFullScreen e (sizeFullScreen d source) = sizeFullScreen d source ↔
      Call.findAll fullScreen (sizeFullScreen d source) = []) ∧
    (Call.findAll fullScreen (sizeFullScreen d source) = [] ↔
      ¬ CompletedBetween d [] source (Call.findAll fullScreen source) ∧
        ¬ KeptInRenderer d [] source (Call.findAll fullScreen source)) := by
  refine ⟨sizeFullScreen_eq_self_iff e _, ?_⟩
  rw [Call.findAll_eq_nil_iff fullScreen_ne_nil isIdentifierChar_of_mem_fullScreen, ← not_or]
  exact not_congr (beginsIn_sized_iff d [] source)

/-- A call is kept in a comment of the renderer; and one is completed, since the semicolon that
ended its arguments stood in a second renderer, which is dropped. -/
theorem sizeFullScreen_again_twice :
    let wide : Dimensions := { width := 1024, height := 768 }
    let kept := sizeFullScreen .standard "fullScreen(P2D /* was fullScreen() */);".toList
    let completed := sizeFullScreen .standard "fullScreen('fullScreen(a,';'))');".toList
    (kept = "size(800, 600, P2D /* was fullScreen() */);".toList ∧
      sizeFullScreen wide kept = "size(800, 600, P2D /* was size(1024, 768) */);".toList ∧
      sizeFullScreen wide kept ≠ kept) ∧
    (completed = "fullScreen('size(800, 600, a))');".toList ∧
      sizeFullScreen wide completed = "size(1024, 768, 'size(800, 600, a))');".toList ∧
      sizeFullScreen wide completed ≠ completed) := by
  decide +kernel

end Sketch
end SketchPreview
