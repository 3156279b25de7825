import SketchPreview.Proofs.Text.Places
import SketchPreview.Sketch.Call

/-!
The spans of the calls in a source.  A cut carries offsets beside text, and `Cut.Placed` says that
the offsets are those of the text: each call starts where the text in front of it ends.  A scan
makes only placed cuts (`placed_scan`), for every callee, and everything about spans follows from
that by induction on the cut: the calls are disjoint slices of the source in increasing order
(`Placed.slice`, `Placed.pairwise`), and a replacement keeps, byte for byte, the slices between them
(`Placed.slice_between`).
-/

namespace SketchPreview
namespace Sketch

namespace Call

/-- What `read?` accepts, said of the text it reads: spaces and tabs, a parenthesis, arguments. -/
theorem read?_eq_some_iff {start : Nat} {callee t rest : Text} {c : Call} :
    read? start callee t = some (c, rest) ↔
      c.start = start ∧ c.callee = callee ∧ (∀ x ∈ c.gap, isGapChar x = true) ∧
        ∃ inner, t = c.gap ++ '(' :: inner ∧ argumentSpan inner = .closed c.arguments rest := by
  constructor
  · intro h
    unfold read? at h
    split at h
    · rename_i inner hd
      split at h
      · rename_i arguments r hs
        simp only [Option.some.injEq, Prod.mk.injEq] at h
        obtain ⟨rfl, rfl⟩ := h
        refine ⟨rfl, rfl, fun x hx => List.all_eq_true.mp List.all_takeWhile x hx, inner, ?_, hs⟩
        rw [← hd]
        exact List.takeWhile_append_dropWhile.symm
      · simp at h
      · simp at h
    · simp at h
  · intro h
    obtain ⟨rfl, rfl, hg, inner, rfl, hs⟩ := h
    have hp : isGapChar '(' = false := by decide
    have hd : (c.gap ++ '(' :: inner).dropWhile isGapChar = '(' :: inner := by
      rw [List.dropWhile_append_of_pos hg, List.dropWhile_cons_of_neg (by simp [hp])]
    have ht : (c.gap ++ '(' :: inner).takeWhile isGapChar = c.gap := by
      rw [List.takeWhile_append_of_pos hg, List.takeWhile_cons_of_neg (by simp [hp]),
        List.append_nil]
    simp only [read?, hd, hs, ht]

theorem readBehind?_eq_some_iff {previous : Option Char} {start : Nat} {callee t rest : Text}
    {c : Call} : readBehind? previous start callee t = some (c, rest) ↔
      previous.any Text.isIdentifierChar = false ∧ read? start callee t = some (c, rest) := by
  cases hp : previous.any Text.isIdentifierChar <;> simp [readBehind?, hp]

theorem text_ne_nil (c : Call) : c.text ≠ [] := by
  simp [text]

theorem start_lt_stop (c : Call) : c.start < c.stop := by
  have hpos := Text.byteSize_pos c.text_ne_nil
  rw [stop]
  omega

/-- A call that starts where `front` ends stops where the call itself ends. -/
theorem stop_eq {c : Call} {front : Text} (h : c.start = Text.byteSize front) :
    c.stop = Text.byteSize (front ++ c.text) := by
  rw [stop, h, Text.byteSize_append]

end Call

namespace Cut

/-! ## Placed cuts -/

/-- The offsets in a cut of a text that stands at byte `offset` are those of the text. -/
def Placed (callee : Text) (offset : Nat) : Cut → Prop
  | .last _ => True
  | .call before c after =>
    c.start = offset + Text.byteSize before ∧ c.callee = callee ∧
      (∀ x ∈ c.gap, Call.isGapChar x = true) ∧ after.Placed callee c.stop

theorem placed_prepend {callee : Text} {offset : Nat} {k : Cut} (t : Text)
    (h : k.Placed callee (offset + Text.byteSize t)) : (k.prepend t).Placed callee offset := by
  cases k with
  | last u => trivial
  | call before c after =>
    obtain ⟨hs, hrest⟩ := h
    refine ⟨?_, hrest⟩
    rw [hs, Text.byteSize_append, Nat.add_assoc]

/-- Every scan places its calls.  The induction follows the three ways on from an occurrence of the
name: behind the name, behind the call, and to the end of the text. -/
theorem placed_scan (callee : Text) (offset : Nat) (previous : Option Char) (t : Text) :
    (scan callee offset previous t).Placed callee offset := by
  fun_induction scan callee offset previous t with
  | case1 => trivial
  | case2 => trivial
  | case3 offset previous t hc before tail ht _ start hr ih =>
    apply placed_prepend
    rw [Text.byteSize_append, ← Nat.add_assoc]
    exact ih
  | case4 offset previous t hc before tail ht _ start c rest hr _ ih =>
    obtain ⟨-, hread⟩ := Call.readBehind?_eq_some_iff.mp hr
    obtain ⟨hs, hcallee, hgap, -⟩ := Call.read?_eq_some_iff.mp hread
    exact ⟨hs, hcallee, hgap, ih⟩

theorem Placed.le_start {callee : Text} {offset : Nat} {k : Cut} (h : k.Placed callee offset) :
    ∀ c ∈ k.calls, offset ≤ c.start := by
  induction k generalizing offset with
  | last u =>
    intro c hc
    simp [calls] at hc
  | call before c after ih =>
    intro d hd
    obtain ⟨hs, -, -, hafter⟩ := h
    rcases List.mem_cons.mp hd with rfl | hd
    · omega
    · have := ih hafter d hd
      have := c.start_lt_stop
      omega

theorem Placed.pairwise {callee : Text} {offset : Nat} {k : Cut} (h : k.Placed callee offset) :
    k.calls.Pairwise fun c d => c.stop ≤ d.start := by
  induction k generalizing offset with
  | last u => exact List.Pairwise.nil
  | call before c after ih =>
    obtain ⟨-, -, -, hafter⟩ := h
    exact List.Pairwise.cons hafter.le_start (ih hafter)

theorem Placed.slice {callee source : Text} {k : Cut} {front : Text}
    (h : k.Placed callee (Text.byteSize front)) (ht : source = front ++ k.fill Call.text) :
    ∀ c ∈ k.calls, Text.slice? c.start c.stop source = some c.text ∧ c.callee = callee ∧
      ∀ x ∈ c.gap, Call.isGapChar x = true := by
  induction k generalizing front with
  | last u =>
    intro c hc
    simp [calls] at hc
  | call before c after ih =>
    intro d hd
    obtain ⟨hs, hcallee, hgap, hafter⟩ := h
    rw [← Text.byteSize_append] at hs
    rcases List.mem_cons.mp hd with rfl | hd
    · refine ⟨Text.slice?_eq_some_iff.mpr ⟨front ++ before, after.fill Call.text, ?_, hs, ?_⟩,
        hcallee, hgap⟩
      · simp [ht, fill]
      · rw [Call.stop, hs]
    · rw [Call.stop_eq hs] at hafter
      exact ih hafter (by simp [ht, fill]) d hd

/-! ## The text between the calls -/

def gaps : Cut → List Text
  | .last t => [t]
  | .call before _ after => before :: after.gaps

theorem length_gaps (k : Cut) : k.gaps.length = k.calls.length + 1 := by
  induction k with
  | last t => rfl
  | call before c after ih => rw [gaps, calls, List.length_cons, List.length_cons, ih]

/-- Gaps and pieces in turn, beginning and ending with a gap. -/
def weave : List Text → List Text → Text
  | [], _ => []
  | gap :: _, [] => gap
  | gap :: gaps, piece :: pieces => gap ++ piece ++ weave gaps pieces

theorem fill_eq_weave (f : Call → Text) (k : Cut) : k.fill f = weave k.gaps (k.calls.map f) := by
  induction k with
  | last t => rfl
  | call before c after ih => rw [fill, gaps, calls, List.map_cons, weave, ih]

/-- The offsets between which no call stands, in a source of `size` bytes, from `last` on. -/
def between (last size : Nat) : List Call → List (Nat × Nat)
  | [] => [(last, size)]
  | c :: cs => (last, c.start) :: between c.stop size cs

/-- The gaps of a placed cut are the slices between the spans of its calls. -/
theorem Placed.slice_between {callee source : Text} {k : Cut} {front : Text}
    (h : k.Placed callee (Text.byteSize front)) (ht : source = front ++ k.fill Call.text) :
    (between (Text.byteSize front) (Text.byteSize source) k.calls).map
      (fun span => Text.slice? span.1 span.2 source) = k.gaps.map some := by
  induction k generalizing front with
  | last t =>
    have hs : Text.slice? (Text.byteSize front) (Text.byteSize source) source = some t :=
      Text.slice?_eq_some_iff.mpr ⟨front, [], by simp [ht, fill], rfl, by simp [ht, fill]⟩
    simp [calls, between, gaps, hs]
  | call before c after ih =>
    obtain ⟨hs, -, -, hafter⟩ := h
    have hstop : c.stop = Text.byteSize (front ++ before ++ c.text) :=
      Call.stop_eq (by rw [hs, Text.byteSize_append])
    have hbefore : Text.slice? (Text.byteSize front) c.start source = some before :=
      Text.slice?_eq_some_iff.mpr
        ⟨front, c.text ++ after.fill Call.text, by simp [ht, fill], rfl, hs⟩
    rw [hstop] at hafter
    have hrest := ih hafter (by simp [ht, fill])
    rw [← hstop] at hrest
    simp only [calls, between, gaps, List.map_cons, hbefore, hrest]

end Cut

namespace Call

/-- The calls that are found are disjoint slices of the source, in increasing order, each of them
the name, spaces or tabs, and arguments in parentheses.  A replacement is the slices between the
calls with the new texts in their places, and with the calls themselves in their places it is the
source. -/
theorem findAll_spans (callee source : Text) :
    (∀ c ∈ findAll callee source, c.start < c.stop ∧ c.stop ≤ Text.byteSize source ∧
      Text.slice? c.start c.stop source = some c.text ∧
      c.text = callee ++ c.gap ++ '(' :: c.arguments ++ [')'] ∧ ∀ x ∈ c.gap, x = ' ' ∨ x = '\t') ∧
    ((findAll callee source).Pairwise fun c d => c.stop ≤ d.start) ∧
    (∃ gaps : List Text, gaps.length = (findAll callee source).length + 1 ∧
      (Cut.between 0 (Text.byteSize source) (findAll callee source)).map
        (fun span => Text.slice? span.1 span.2 source) = gaps.map some ∧
      source = Cut.weave gaps ((findAll callee source).map Call.text) ∧
      ∀ f, replaceAll callee f source = Cut.weave gaps ((findAll callee source).map f)) ∧
    replaceAll callee Call.text source = source := by
  have hplaced : (Cut.of callee source).Placed callee (Text.byteSize []) :=
    Cut.placed_scan callee 0 none source
  have htext : source = [] ++ (Cut.of callee source).fill Call.text :=
    (Cut.text_of callee source).symm
  refine ⟨?_, hplaced.pairwise, ⟨(Cut.of callee source).gaps, Cut.length_gaps _,
    hplaced.slice_between htext, ?_, fun f => Cut.fill_eq_weave f _⟩, Cut.text_of callee source⟩
  · intro c hc
    obtain ⟨hslice, hcallee, hgap⟩ := hplaced.slice htext c hc
    obtain ⟨before, after, hsource, hstart, hstop⟩ := Text.slice?_eq_some_iff.mp hslice
    refine ⟨c.start_lt_stop, ?_, hslice, by rw [Call.text, hcallee], fun x hx => ?_⟩
    · rw [hsource, hstop, Text.byteSize_append, Text.byteSize_append]
      omega
    · simpa [isGapChar] using hgap x hx
  · exact htext.trans (Cut.fill_eq_weave Call.text _)

end Call
end Sketch
end SketchPreview
