import SketchPreview.Proofs.Sketch.Layout
import SketchPreview.Proofs.Sketch.SizeCall

/-!
The two rewrites of a sketch commute (`sizeFullScreen_dropPixelDensity`).

Each of them scans text that the other has edited.  In a cut that is laid out for both names each
fills its own calls, whatever stands in place of the others: nothing stands where a density was, and
a sized call keeps of the call it replaces no more than a renderer, which began behind a character
that ends every identifier (`clean_sized`).
-/

namespace SketchPreview
namespace Sketch

theorem isIdentifierChar_of_isBlank {c : Char} (h : Text.isBlank c = true) :
    Text.isIdentifierChar c = false := by
  simp only [Text.isBlank, Bool.or_eq_true, Bool.and_eq_true, decide_eq_true_eq, beq_iff_eq] at h
  by_cases hascii : c.toNat < 0x80
  · have hcodes : ∀ n ∈ [0x09, 0x0A, 0x0B, 0x0C, 0x0D, 0x20],
        Text.isIdentifierChar (Char.ofNat n) = false := by
      decide
    rw [← c.ofNat_toNat]
    apply hcodes
    simp only [List.mem_cons, List.not_mem_nil, or_false]
    omega
  · -- Beyond ASCII the white space lies in gaps of the table.
    have hgaps : ∀ run ∈ Text.alphanumericRanges,
        ∀ gap ∈ [(0x85, 0x85), (0xA0, 0xA0), (0x1680, 0x1680), (0x2000, 0x205F), (0x3000, 0x3000)],
          run.2 < gap.1 ∨ gap.2 < run.1 := by
      decide +kernel
    rw [Text.isIdentifierChar, if_neg hascii, Text.inRanges, List.any_eq_false]
    intro run hrun
    have houtside := hgaps run hrun
    simp only [List.forall_mem_cons, List.not_mem_nil, false_implies, implies_true] at houtside
    simp only [Bool.and_eq_true, decide_eq_true_eq]
    omega

theorem Argument.exists_append_of_renderer? {arguments r : Text}
    (h : renderer? arguments = some r) :
    ∃ before after, arguments = before ++ r ++ after ∧ Apart before.getLast? := by
  obtain ⟨token, htoken, rfl, -⟩ := exists_token_of_renderer? h
  obtain ⟨before, after, hplace, hbefore⟩ := exists_append_of_mem_splitFrom htoken
  obtain ⟨blank, rest, htrim, hblank, -⟩ := Text.exists_append_strip Text.isBlank token
  refine ⟨before ++ blank, rest ++ after, ?_, apart_getLast?_append ?_ ?_⟩
  · rw [hplace]
    conv => lhs; rw [htrim]
    simp [Text.trim]
  · rcases hbefore with rfl | hcomma
    · exact apart_none
    · rw [hcomma]
      decide
  · cases hlast : blank.getLast? with
    | none => exact apart_none
    | some x => exact isIdentifierChar_of_isBlank (hblank x (List.mem_of_getLast? hlast))

theorem isIdentifierChar_of_mem_pixelDensity :
    ∀ x ∈ pixelDensity, Text.isIdentifierChar x = true := List.all_eq_true.mp (by decide)

theorem not_mem_sizes (d : Dimensions) : 'p' ∉ sizes d := by
  intro h
  exact absurd (isDigit_or_mem_of_mem_sizes h) (by decide)

theorem clear_density {before t : Text} (h : 'p' ∉ t) : Clear pixelDensity before t := by
  show Clear ('p' :: "ixelDensity".toList) before t
  exact clear_of_not_mem h

/-- The renderer of a call holds no place of a name, wherever it stands, if the call did not. -/
theorem Call.clear_renderer {name r : Text} {c : Call} (hc : Clear name [] c.text)
    (hr : Argument.renderer? c.arguments = some r) (front : Text) : Clear name front r := by
  obtain ⟨before, after, harguments, hbefore⟩ := Argument.exists_append_of_renderer? hr
  have htext : c.text = (c.callee ++ c.gap ++ ['('] ++ before) ++ (r ++ (after ++ [')'])) := by
    rw [Call.text, harguments]
    simp
  have hfront : Apart ([] ++ (c.callee ++ c.gap ++ ['('] ++ before)).getLast? := by
    rw [List.nil_append]
    refine apart_getLast?_append ?_ hbefore
    rw [List.getLast?_concat]
    decide
  rw [htext] at hc
  exact hc.of_suffix.of_prefix.of_apart hfront

theorem clean_sized (d : Dimensions) {c : Call} (hc : Clear pixelDensity [] c.text) :
    Clean pixelDensity (c.sized d) := by
  have hsizes : ∀ t : Text, 'p' ∉ t → 'p' ∉ sizes d ++ t := by
    intro t ht
    rw [List.mem_append, not_or]
    exact ⟨not_mem_sizes d, ht⟩
  rw [Call.sized_eq]
  constructor
  · cases hr : Argument.renderer? c.arguments with
    | none =>
      rw [sizeCall_none]
      exact clear_density (hsizes _ (by decide))
    | some r =>
      have hspace : Apart (sizes d ++ [',', ' ']).getLast? := by
        rw [List.getLast?_append]
        show Apart (some ' ')
        decide
      have hclose : Apart ([')'] : Text).head? := by decide
      rw [sizeCall_some]
      refine (clear_density (hsizes _ (by decide))).append isIdentifierChar_of_mem_pixelDensity
        (Or.inr (Or.inl hspace)) ?_
      exact (Call.clear_renderer hc hr _).append isIdentifierChar_of_mem_pixelDensity
        (Or.inr (Or.inr hclose)) (clear_density (by decide))
  · rw [sizeCall_eq, ← List.cons_append, ← List.append_assoc, List.getLast?_concat]
    decide

theorem replaceAll_fill {name : Text} (hne : name ≠ [])
    (hid : ∀ x ∈ name, Text.isIdentifierChar x = true) {h f : Call → Text}
    (hf : ∀ start c, f { c with start := start } = f c) {k : Cut} (hk : k.Laid name [])
    (hown : ∀ c ∈ k.calls, c.callee = name → h c = c.text)
    (hother : ∀ c ∈ k.calls, c.callee ≠ name → Clean name (h c)) :
    Call.replaceAll name f (k.fill h) = k.fill fun c => if c.callee = name then f c else h c :=
  Cut.fill_behind hne hid hf (show Apart ([] : Text).getLast? from apart_none) hk hown hother

/-- Removing the density and sizing the surface are independent, in every source whose places of the
two names are calls and whose calls of the two names do not overlap. -/
theorem sizeFullScreen_dropPixelDensity (d : Dimensions) (source : Text)
    (hfull : Call.Everywhere fullScreen source) (hdensity : Call.Everywhere pixelDensity source)
    (hdisjoint : ∀ c ∈ Call.findAll fullScreen source, ∀ e ∈ Call.findAll pixelDensity source,
      c.stop ≤ e.start ∨ e.stop ≤ c.start) :
    sizeFullScreen d (dropPixelDensity source) = dropPixelDensity (sizeFullScreen d source) := by
  have hf : fullScreen ≠ [] := by decide
  have hp : pixelDensity ≠ [] := by decide
  have hdistinct : fullScreen ≠ pixelDensity := by decide
  obtain ⟨k, htext, hlaidfull, hlaiddensity, hnamed⟩ := Cut.exists_layout hf hp hdistinct
    isIdentifierChar_of_mem_fullScreen isIdentifierChar_of_mem_pixelDensity hfull hdensity
    hdisjoint [] source rfl
  -- Each of the two rewrites, whatever clean text stands in place of the calls of the other.
  have hsize : ∀ h : Call → Text, (∀ c ∈ k.calls, c.callee = fullScreen → h c = c.text) →
      (∀ c ∈ k.calls, c.callee ≠ fullScreen → Clean fullScreen (h c)) →
      sizeFullScreen d (k.fill h) =
        k.fill fun c => if c.callee = fullScreen then c.sized d else h c :=
    fun h => replaceAll_fill hf isIdentifierChar_of_mem_fullScreen (fun _ _ => rfl) hlaidfull
  have hdrop : ∀ h : Call → Text, (∀ c ∈ k.calls, c.callee = pixelDensity → h c = c.text) →
      (∀ c ∈ k.calls, c.callee ≠ pixelDensity → Clean pixelDensity (h c)) →
      dropPixelDensity (k.fill h) =
        k.fill fun c => if c.callee = pixelDensity then [] else h c :=
    fun h => replaceAll_fill hp isIdentifierChar_of_mem_pixelDensity (fun _ _ => rfl) hlaiddensity
  have hdensityless : dropPixelDensity source =
      k.fill fun c => if c.callee = pixelDensity then [] else c.text := by
    rw [← htext]
    exact hdrop _ (fun _ _ _ => rfl)
      fun c hc hne => ⟨hlaiddensity.clear_text hc hne, c.apart_text⟩
  have hsized : sizeFullScreen d source =
      k.fill fun c => if c.callee = fullScreen then c.sized d else c.text := by
    rw [← htext]
    exact hsize _ (fun _ _ _ => rfl)
      fun c hc hne => ⟨hlaidfull.clear_text hc hne, c.apart_text⟩
  rw [hdensityless, hsized, hsize, hdrop]
  · apply Cut.fill_congr
    intro c _
    by_cases hc : c.callee = fullScreen
    · rw [if_pos hc, if_neg (by rw [hc]; exact hdistinct), if_pos hc]
    · rw [if_neg hc, if_neg hc]
  · intro c _ hc
    rw [if_neg (by rw [hc]; exact hdistinct.symm)]
  · intro c hc hne
    have hcallee : c.callee = fullScreen := (hnamed c hc).resolve_right hne
    rw [if_pos hcallee]
    exact clean_sized d (hlaiddensity.clear_text hc hne)
  · intro c _ hc
    rw [if_neg (by rw [hc]; exact hdistinct)]
  · intro c hc hne
    have hcallee : c.callee = pixelDensity := (hnamed c hc).resolve_left hne
    rw [if_pos hcallee]
    exact ⟨clear_nil hf [], apart_none⟩

/-- A name that continues an identifier, adjacent calls of both names in both orders, a quoted
parenthesis and a renderer to keep. -/
theorem sizeFullScreen_dropPixelDensity_adjacent :
    let source := "afullScreen(pixelDensity\t(')')fullScreen (x, [P2D],1)pixelDensity()".toList
    (Call.Everywhere fullScreen source ∧ Call.Everywhere pixelDensity source ∧
      ∀ c ∈ Call.findAll fullScreen source, ∀ e ∈ Call.findAll pixelDensity source,
        c.stop ≤ e.start ∨ e.stop ≤ c.start) ∧
      sizeFullScreen .standard (dropPixelDensity source) =
        dropPixelDensity (sizeFullScreen .standard source) ∧
      dropPixelDensity source = "afullScreen(fullScreen (x, [P2D],1)".toList ∧
      sizeFullScreen .standard (dropPixelDensity source) =
        "afullScreen(size(800, 600, x)".toList := by
  intro source
  have hfull : Call.findAll fullScreen source =
      [⟨30, fullScreen, [' '], "x, [P2D],1".toList⟩] :=
    (Call.calls_behind_eq (by decide) isIdentifierChar_of_mem_fullScreen [] source
      (Nat.le_refl 0)).trans (by decide +kernel)
  have hdensity : Call.findAll pixelDensity source =
      [⟨12, pixelDensity, ['\t'], "')'".toList⟩, ⟨53, pixelDensity, [], []⟩] :=
    (Call.calls_behind_eq (by decide) isIdentifierChar_of_mem_pixelDensity [] source
      (Nat.le_refl 0)).trans (by decide +kernel)
  have hfulls : Call.Everywhere fullScreen source := by
    apply Text.forall_place_of_forall_take
    rw [hfull]
    decide +kernel
  have hdensities : Call.Everywhere pixelDensity source := by
    apply Text.forall_place_of_forall_take
    rw [hdensity]
    decide +kernel
  have hdisjoint : ∀ c ∈ Call.findAll fullScreen source,
      ∀ e ∈ Call.findAll pixelDensity source, c.stop ≤ e.start ∨ e.stop ≤ c.start := by
    rw [hfull, hdensity]
    decide
  have hdropped : dropPixelDensity source = "afullScreen(fullScreen (x, [P2D],1)".toList := by
    decide +kernel
  have hsized : sizeFullScreen .standard (dropPixelDensity source) =
      "afullScreen(size(800, 600, x)".toList := by
    decide +kernel
  exact ⟨⟨hfulls, hdensities, hdisjoint⟩,
    sizeFullScreen_dropPixelDensity .standard source hfulls hdensities hdisjoint, hdropped, hsized⟩

end Sketch
end SketchPreview
