import SketchPreview.Proofs.Sketch.Scan
import SketchPreview.Proofs.Sketch.Tokens
import SketchPreview.Sketch.Windowing

/-!
The call that takes the place of a call for the whole screen.

The renderer that is kept is a token of closed arguments, so it is closed; but it is trimmed, and a
line feed at its end may be what closed a literal.  `isOneCall_sized_iff` says exactly when the new
text is one call with the arguments that were meant: when the trimmed renderer ends outside of
literals.  `unclosed_sized_call` is a call for which it does not.
-/

namespace SketchPreview
namespace Sketch

namespace Call

/-! ## A text that is one call -/

theorem closed_of_mem_scan {callee : Text} {offset : Nat} {previous : Option Char} {t : Text}
    {c : Call} (h : c ∈ (Cut.scan callee offset previous t).calls) : Closed c.arguments := by
  revert h
  fun_induction Cut.scan callee offset previous t with
  | case1 => simp [Cut.calls]
  | case2 => simp [Cut.calls]
  | case3 offset previous t hc before tail ht _ start hr ih =>
    intro h
    rw [Cut.calls_prepend] at h
    exact ih h
  | case4 offset previous t hc before tail ht _ start first rest hr _ ih =>
    intro h
    rcases List.mem_cons.mp h with rfl | h
    · obtain ⟨-, hread⟩ := readBehind?_eq_some_iff.mp hr
      obtain ⟨-, -, -, inner, -, hspan⟩ := read?_eq_some_iff.mp hread
      exact closed_of_argumentSpan hspan
    · exact ih h

theorem closed_of_mem_findAll {callee source : Text} {c : Call} (h : c ∈ findAll callee source) :
    Closed c.arguments :=
  closed_of_mem_scan h

/-- A text is one complete call of `callee` and nothing else, and its arguments, trimmed, are
`tokens`. -/
def IsOneCall (callee t : Text) (tokens : List Text) : Prop :=
  ∃ c, findAll callee t = [c] ∧ c.start = 0 ∧ c.stop = Text.byteSize t ∧
    (Argument.split c.arguments).map Text.trim = tokens

theorem findAll_of_closed {callee arguments : Text} (hne : callee ≠ []) (h : Closed arguments) :
    findAll callee (callee ++ '(' :: (arguments ++ [')'])) = [⟨0, callee, [], arguments⟩] := by
  have hread : read? 0 callee ('(' :: (arguments ++ [')'])) =
      some (⟨0, callee, [], arguments⟩, []) :=
    read?_eq_some_iff.mpr ⟨rfl, rfl, by simp, _, rfl, argumentSpan_of_closed h []⟩
  have hfront : front? callee ([] : Text).getLast? (Text.byteSize [])
      (callee ++ '(' :: (arguments ++ [')'])) = some (⟨0, callee, [], arguments⟩, []) := by
    rw [front?, Text.behind?_eq_some_iff.mpr rfl]
    exact hread
  show (Cut.behind callee [] _).calls = _
  rw [Cut.behind_of_front? hne hfront, Cut.behind_nil]
  rfl

theorem closed_of_isOneCall {callee arguments : Text} {tokens : List Text}
    (h : IsOneCall callee (callee ++ '(' :: (arguments ++ [')'])) tokens) : Closed arguments := by
  obtain ⟨c, hall, hstart, hstop, -⟩ := h
  have hmem : c ∈ findAll callee (callee ++ '(' :: (arguments ++ [')'])) := by
    rw [hall]
    exact List.mem_cons_self
  have hclosed := closed_of_mem_findAll hmem
  have htext := (Cut.text_of callee (callee ++ '(' :: (arguments ++ [')']))).symm
  rw [← List.nil_append (Cut.fill _ _)] at htext
  obtain ⟨hslice, hcallee, hgap⟩ := (Cut.placed_scan callee 0 none _).slice htext c hmem
  obtain ⟨before, after, htext, hbefore, hafter⟩ := Text.slice?_eq_some_iff.mp hslice
  -- The call begins where the text does and ends where it does.
  obtain rfl : before = [] := by
    by_contra hne
    have hpos := Text.byteSize_pos hne
    omega
  obtain rfl : after = [] := by
    by_contra hne
    have hpos := Text.byteSize_pos hne
    rw [hstop, htext, Text.byteSize_append, Text.byteSize_append] at hafter
    omega
  rw [List.nil_append, List.append_nil, text, hcallee, List.append_assoc, List.append_assoc,
    List.append_right_inj] at htext
  cases hg : c.gap with
  | nil =>
    rw [hg, List.nil_append, List.cons_append, List.cons.injEq] at htext
    rw [List.append_inj_left' htext.2 rfl]
    exact hclosed
  | cons x gap =>
    rw [hg, List.cons_append, List.cons.injEq] at htext
    have hx := hgap x (by rw [hg]; exact List.mem_cons_self)
    rw [← htext.1] at hx
    simp [isGapChar] at hx

end Call

/-! ## The renderer -/

namespace Argument

theorem exists_token_of_renderer? {arguments r : Text} (h : renderer? arguments = some r) :
    ∃ token ∈ splitFrom {} arguments, r = Text.trim token ∧ (classify r).survives = true := by
  have hsurvives := List.find?_some h
  obtain ⟨token, htoken, hr⟩ := List.mem_map.mp (List.mem_of_find?_eq_some h)
  exact ⟨token, mem_splitFrom_of_mem_split htoken, hr.symm, hsurvives⟩

/-- There is no renderer in blank arguments. -/
theorem renderer?_of_blank {arguments : Text} (h : Text.trim arguments = []) :
    renderer? arguments = none := by
  rw [← Option.not_isSome_iff_eq_none, Option.isSome_iff_exists]
  intro hsome
  obtain ⟨r, hr⟩ := hsome
  obtain ⟨token, htoken, rfl, hsurvives⟩ := exists_token_of_renderer? hr
  obtain ⟨before, after, rfl, -⟩ := exists_append_of_mem_splitFrom htoken
  have hblank : Text.trim token = [] := by
    rw [Text.trim_eq_nil_iff] at h ⊢
    intro c hc
    exact h c (List.mem_append_left after (List.mem_append_right before hc))
  rw [hblank] at hsurvives
  exact absurd hsurvives (by decide)

/-- A closed token stays closed when it is trimmed, unless that leaves a literal open. -/
theorem closed_trim {token : Text} (h : Closed token)
    (hcomma : ({} : Nesting).avoids isComma token = true)
    (hmode : (({} : Nesting).run (Text.trim token)).mode = .code) :
    Closed (Text.trim token) ∧ ({} : Nesting).avoids isComma (Text.trim token) = true := by
  obtain ⟨before, after, htoken, hbefore, hafter⟩ := Text.exists_append_strip Text.isBlank token
  have hinert : ∀ {t : Text}, (∀ c ∈ t, Text.isBlank c = true) → ∀ c ∈ t, isInert c = true :=
    fun ht c hc => isInert_of_class (p := Text.isBlank) (by decide) (ht c hc)
  have hrunbefore := run_of_isInert (hinert hbefore) 0
  have hclosed : Closed (Text.trim token ++ after) := by
    apply (closed_of_isInert (hinert hbefore)).of_append
    rw [← List.append_assoc]
    rwa [htoken] at h
  -- The white space behind the token changes nothing, since it is read as code.
  have hrun : ({} : Nesting).run (Text.trim token) = {} := by
    have hall := hclosed.run
    rw [Nesting.run_append] at hall
    generalize ({} : Nesting).run (Text.trim token) = n at hmode hall
    obtain ⟨depth, mode⟩ := n
    obtain rfl : mode = .code := hmode
    rwa [run_of_isInert (hinert hafter)] at hall
  have havoids := hclosed.avoids
  rw [Nesting.avoids_append, Bool.and_eq_true] at havoids
  refine ⟨⟨havoids.1, hrun⟩, ?_⟩
  rw [htoken, Nesting.avoids_append, Nesting.avoids_append, hrunbefore, Bool.and_eq_true,
    Bool.and_eq_true] at hcomma
  exact hcomma.1.2

end Argument

/-! ## The new call -/

def size : Text := "size".toList

/-- The text between the parentheses of the call that sizes the surface. -/
def sizeArguments (d : Dimensions) : Option Text → Text
  | none => Text.decimal d.width.toNat ++ ',' :: ' ' :: Text.decimal d.height.toNat
  | some r =>
    Text.decimal d.width.toNat ++ ',' :: (' ' :: Text.decimal d.height.toNat ++ ',' :: ' ' :: r)

theorem sizeArguments_some (d : Dimensions) (r : Text) :
    sizeArguments d (some r) = sizeArguments d none ++ [',', ' '] ++ r := by
  simp [sizeArguments]

theorem sizeCall_eq (d : Dimensions) (renderer : Option Text) :
    sizeCall d renderer = size ++ '(' :: (sizeArguments d renderer ++ [')']) := by
  have hpieces : ∀ front comma extra : Text, front = size ++ ['('] → comma = [',', ' '] →
      front ++ Text.decimal d.width.toNat ++ comma ++ Text.decimal d.height.toNat ++ extra ++
          [')'] =
        size ++ '(' :: (sizeArguments d none ++ extra ++ [')']) := by
    intro front comma extra hfront hcomma
    rw [hfront, hcomma]
    simp [sizeArguments]
  have hnone := hpieces "size(".toList ", ".toList [] rfl rfl
  cases renderer with
  | none =>
    rw [List.append_nil (sizeArguments d none)] at hnone
    exact hnone
  | some r =>
    have hsome := hpieces "size(".toList ", ".toList (", ".toList ++ r) rfl rfl
    rw [sizeArguments_some, List.append_assoc _ [',', ' '] r]
    exact hsome

/-- The new call up to its sizes. -/
def sizes (d : Dimensions) : Text := size ++ '(' :: sizeArguments d none

theorem sizeCall_none (d : Dimensions) : sizeCall d none = sizes d ++ [')'] := by
  rw [sizeCall_eq, sizes, List.append_assoc, List.cons_append]

theorem sizeCall_some (d : Dimensions) (r : Text) :
    sizeCall d (some r) = (sizes d ++ [',', ' ']) ++ (r ++ [')']) := by
  rw [sizeCall_eq, sizeArguments_some, sizes]
  simp

theorem isDigit_or_mem_of_mem_sizes {d : Dimensions} {x : Char} (h : x ∈ sizes d) :
    x.isDigit = true ∨ x ∈ size ++ ['(', ',', ' '] := by
  have hdigit : ∀ n, x ∈ Text.decimal n → x.isDigit = true := fun n hn =>
    Nat.isDigit_of_mem_toDigits (by decide) (by decide) hn
  simp only [sizes, sizeArguments, List.mem_append, List.mem_cons, List.not_mem_nil,
    or_false] at h ⊢
  rcases h with h | h | h | h | h | h
  · exact Or.inr (Or.inl h)
  · exact Or.inr (Or.inr (Or.inl h))
  · exact Or.inl (hdigit _ h)
  · exact Or.inr (Or.inr (Or.inr (Or.inl h)))
  · exact Or.inr (Or.inr (Or.inr (Or.inr h)))
  · exact Or.inl (hdigit _ h)

theorem Call.sized_eq (d : Dimensions) (c : Call) :
    c.sized d = sizeCall d (Argument.renderer? c.arguments) := by
  rw [Call.sized]
  split
  · rename_i h
    rw [Argument.renderer?_of_blank (List.isEmpty_iff.mp h)]
  · rfl

theorem isInert_of_mem_decimal {n : Nat} {c : Char} (h : c ∈ Text.decimal n) :
    isInert c = true :=
  isInert_of_class (p := Char.isDigit) (by decide)
    (Nat.isDigit_of_mem_toDigits (by decide) (by decide) h)

theorem isInert_of_mem_cons_decimal {n : Nat} {c : Char} (h : c ∈ ' ' :: Text.decimal n) :
    isInert c = true := by
  rcases List.mem_cons.mp h with rfl | h
  · decide
  · exact isInert_of_mem_decimal h

theorem isComma_mem_marks {c : Char} (h : Argument.isComma c = true) : c ∈ marks := by
  obtain rfl : c = ',' := by simpa [Argument.isComma] using h
  decide

/-- The arguments of the new call, up to where the renderer stands. -/
theorem closed_sizes (d : Dimensions) : Closed (sizeArguments d none) := by
  refine (closed_of_isInert fun c hc => isInert_of_mem_decimal hc).append ?_
  exact Argument.closed_comma.append (closed_of_isInert fun c hc => isInert_of_mem_cons_decimal hc)

theorem split_sizeArguments (d : Dimensions) {renderer : Option Text}
    (h : ∀ r ∈ renderer, ({} : Nesting).avoids Argument.isComma r = true ∧ Text.trim r = r) :
    (Argument.split (sizeArguments d renderer)).map Text.trim =
      Text.decimal d.width.toNat :: Text.decimal d.height.toNat :: renderer.toList := by
  have hblank : ∀ c ∈ [' '], Text.isBlank c = true := List.all_eq_true.mp (by decide)
  have hspace : ∀ t, Text.trim (' ' :: t) = Text.trim t := fun t =>
    Text.strip_append_left hblank
  have hwidth : ∀ c ∈ Text.decimal d.width.toNat, isInert c = true :=
    fun c hc => isInert_of_mem_decimal hc
  have hheight : ∀ c ∈ ' ' :: Text.decimal d.height.toNat, isInert c = true :=
    fun c hc => isInert_of_mem_cons_decimal hc
  have hne : ¬ (sizeArguments d renderer).isEmpty = true := by
    cases renderer <;> simp [sizeArguments, List.isEmpty_iff]
  have hcomma : ∀ {t : Text}, (∀ c ∈ t, isInert c = true) →
      ({} : Nesting).avoids Argument.isComma t = true :=
    fun ht => avoids_of_isInert (fun _ => isComma_mem_marks) ht
  rw [Argument.split, if_neg hne]
  cases renderer with
  | none =>
    rw [sizeArguments, Argument.splitFrom_append_comma (hcomma hwidth) (run_of_isInert hwidth 0),
      Argument.splitFrom_of_avoids (hcomma hheight), List.map_cons, List.map_cons, hspace,
      Text.trim_decimal, Text.trim_decimal]
    rfl
  | some r =>
    obtain ⟨hr, htrim⟩ := h r rfl
    have hlast : ({} : Nesting).avoids Argument.isComma (' ' :: r) = true := hr
    rw [sizeArguments, Argument.splitFrom_append_comma (hcomma hwidth) (run_of_isInert hwidth 0),
      Argument.splitFrom_append_comma (hcomma hheight) (run_of_isInert hheight 0),
      Argument.splitFrom_of_avoids hlast, List.map_cons, List.map_cons, List.map_cons, hspace,
      hspace, Text.trim_decimal, Text.trim_decimal, htrim]
    rfl

/-- What takes the place of a call for the whole screen is one call of `size` with the two sizes and
the renderer, exactly if the renderer, trimmed, ends outside of literals. -/
theorem isOneCall_sized_iff (d : Dimensions) (source : Text) (c : Call)
    (hc : c ∈ Call.findAll fullScreen source) :
    Call.IsOneCall size (c.sized d) (Text.decimal d.width.toNat :: Text.decimal d.height.toNat ::
        (Argument.renderer? c.arguments).toList) ↔
      ∀ r, Argument.renderer? c.arguments = some r → (({} : Nesting).run r).mode = .code := by
  have hsize : size ≠ [] := by decide
  have harguments := Call.closed_of_mem_findAll hc
  rw [Call.sized_eq, sizeCall_eq]
  constructor
  · intro h r hr
    have hclosed := Call.closed_of_isOneCall h
    rw [hr, sizeArguments_some] at hclosed
    have hfront : Closed (sizeArguments d none ++ [',', ' ']) :=
      (closed_sizes d).append ⟨rfl, rfl⟩
    rw [(hfront.of_append hclosed).run]
  · intro h
    have hrenderer : ∀ r ∈ Argument.renderer? c.arguments, Closed r ∧
        ({} : Nesting).avoids Argument.isComma r = true ∧ Text.trim r = r := by
      intro r hr
      obtain ⟨token, htoken, rfl, -⟩ := Argument.exists_token_of_renderer? hr
      obtain ⟨hclosed, hcomma⟩ := Argument.closed_of_mem_splitFrom harguments htoken
      obtain ⟨hclosed, hcomma⟩ := Argument.closed_trim hclosed hcomma (h _ hr)
      exact ⟨hclosed, hcomma, Text.trim_trim token⟩
    have hclosed : Closed (sizeArguments d (Argument.renderer? c.arguments)) := by
      cases hr : Argument.renderer? c.arguments with
      | none => exact closed_sizes d
      | some r =>
        rw [sizeArguments_some]
        exact ((closed_sizes d).append ⟨rfl, rfl⟩).append (hrenderer r hr).1
    refine ⟨_, Call.findAll_of_closed hsize hclosed, rfl, ?_, ?_⟩
    · rw [Call.stop, Call.text]
      simp
    · exact split_sizeArguments d fun r hr => (hrenderer r hr).2

theorem isIdentifierChar_of_mem_fullScreen :
    ∀ x ∈ fullScreen, Text.isIdentifierChar x = true := List.all_eq_true.mp (by decide)

/-- A renderer with brackets, quotes, a comma and a literal that the line ends, all of it closed. -/
theorem isOneCall_sized_nested :
    let source := "x; fullScreen\t(0x10, pick(\")'\", 'a\n, \x7b2;\x7d) , SPAN);".toList
    let renderer := "pick(\")'\", 'a\n, \x7b2;\x7d)".toList
    let c : Call := ⟨3, fullScreen, ['\t'], "0x10, ".toList ++ renderer ++ " , SPAN".toList⟩
    c ∈ Call.findAll fullScreen source ∧
      Call.IsOneCall size (c.sized .standard) ["800".toList, "600".toList, renderer] := by
  intro source renderer c
  have hall : Call.findAll fullScreen source = [c] :=
    (Call.calls_behind_eq (by decide) isIdentifierChar_of_mem_fullScreen [] source
      (Nat.le_refl 0)).trans (by decide)
  have hc : c ∈ Call.findAll fullScreen source := by
    rw [hall]
    exact List.mem_cons_self
  have hrenderer : Argument.renderer? c.arguments = some renderer := by decide
  have hiff := isOneCall_sized_iff .standard source c hc
  rw [hrenderer] at hiff
  refine ⟨hc, hiff.mpr ?_⟩
  intro r hr
  obtain rfl := Option.some.inj hr
  decide

/-- The line feed behind the renderer ends a literal, and trimming takes it away: the new
parenthesis is inside of the literal, and the new text is no call. -/
theorem unclosed_sized_call :
    let source := "fullScreen('a\n);".toList
    let c : Call := ⟨0, fullScreen, [], "'a\n".toList⟩
    c ∈ Call.findAll fullScreen source ∧
      c.sized .standard = "size(800, 600, 'a)".toList ∧
      Call.findAll size (c.sized .standard) = [] ∧
      ¬ Call.IsOneCall size (c.sized .standard)
        ("800".toList :: "600".toList :: (Argument.renderer? c.arguments).toList) := by
  intro source c
  have hall : Call.findAll fullScreen source = [c] :=
    (Call.calls_behind_eq (by decide) isIdentifierChar_of_mem_fullScreen [] source
      (Nat.le_refl 0)).trans (by decide)
  have htext : c.sized .standard = "size(800, 600, 'a)".toList := by decide
  have hnone : Call.findAll size (c.sized .standard) = [] := by
    rw [htext]
    exact (Call.calls_behind_eq (by decide) (List.all_eq_true.mp (by decide)) [] _
      (Nat.le_refl 0)).trans (by decide)
  refine ⟨by rw [hall]; exact List.mem_cons_self, htext, hnone, ?_⟩
  intro h
  obtain ⟨d, hd, -⟩ := h
  rw [hnone] at hd
  simp at hd

end Sketch
end SketchPreview
