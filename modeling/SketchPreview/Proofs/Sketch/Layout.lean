import SketchPreview.Proofs.Sketch.Scan
import SketchPreview.Proofs.Sketch.Tokens

/-!
Scanning a text in which the calls of another name have been replaced.

A scan for a name looks only at the places where the name stands and continues no identifier; text
without such a place is `Clear`, and a scan walks over it (`behind_append`).  Whether text is clear
can be told piece by piece if no identifier spans the boundary of two pieces (`Parted`).

`Cut.Laid` says that the places of one name in a cut, which may hold calls of other names too, are
the calls of that name.  Then whatever the other calls are filled with, as long as it is clear and
ends no identifier, the scan finds the calls of the name and nothing else (`fill_behind`).  A source
whose places of two names are all calls, none of which overlap, has one cut that is laid out for
both (`exists_layout`).
-/

namespace SketchPreview
namespace Sketch

/-- No identifier is continued behind such a character, or behind the beginning of a text. -/
def Apart (c : Option Char) : Prop := c.any Text.isIdentifierChar = false

instance (c : Option Char) : Decidable (Apart c) := inferInstanceAs (Decidable (_ = _))

/-- No identifier spans the boundary of two texts. -/
def Parted (a b : Text) : Prop := Apart a.getLast? ∨ Apart b.head?

/-- No name begins in the text `t` behind `before`, unless it continues an identifier. -/
def Clear (name before t : Text) : Prop :=
  ∀ skipped tail, t = skipped ++ tail → Apart (before ++ skipped).getLast? → ¬ name <+: tail

theorem apart_none : Apart none := rfl

theorem apart_getLast?_append {a b : Text} (ha : Apart a.getLast?) (hb : Apart b.getLast?) :
    Apart (a ++ b).getLast? := by
  rw [List.getLast?_append]
  cases hl : b.getLast? with
  | none => rwa [Option.none_or]
  | some x =>
    rw [Option.some_or]
    rwa [hl] at hb

/-- Of the text in front only its end matters. -/
theorem apart_getLast?_exchange {a b c : Text} (h : Apart (a ++ c).getLast?)
    (hb : Apart b.getLast?) : Apart (b ++ c).getLast? := by
  rw [List.getLast?_append] at h ⊢
  cases hl : c.getLast? with
  | none => rwa [Option.none_or]
  | some x => rwa [hl, Option.some_or] at h

theorem apart_getLast?_of_append {a b : Text} (hb : b ≠ []) (h : Apart (a ++ b).getLast?) :
    Apart b.getLast? := by
  rwa [List.getLast?_append, List.getLast?_eq_some_getLast hb, Option.some_or,
    ← List.getLast?_eq_some_getLast hb] at h

theorem eq_nil_or_parted {a b : Text} (h : Apart (a ++ b).getLast?) (c : Text) :
    b = [] ∨ Parted b c := by
  by_cases hb : b = []
  · exact Or.inl hb
  · exact Or.inr (Or.inl (apart_getLast?_of_append hb h))

theorem Call.getLast?_text (c : Call) : c.text.getLast? = some ')' := by
  rw [Call.text]
  exact List.getLast?_concat

theorem Call.apart_text (c : Call) : Apart c.text.getLast? := by
  rw [c.getLast?_text]
  decide

/-! ## Clear text -/

section Name

variable {name : Text} (hne : name ≠ []) (hid : ∀ x ∈ name, Text.isIdentifierChar x = true)

include hid in
/-- A name that begins in a text does not reach beyond its end, if no identifier does. -/
theorem prefix_of_parted {a b : Text} (ha : a ≠ []) (hab : Parted a b) (h : name <+: a ++ b) :
    name <+: a := by
  rcases List.prefix_or_prefix_of_prefix h (List.prefix_append a b) with hshort | hlong
  · exact hshort
  · obtain ⟨rest, hrest⟩ := hlong
    cases rest with
    | nil =>
      rw [List.append_nil] at hrest
      subst hrest
      exact List.prefix_refl a
    | cons y rest =>
      -- The name holds the last character of `a` and the first one of `b`.
      exfalso
      have hlast : Text.isIdentifierChar (a.getLast ha) = true := by
        apply hid
        rw [← hrest]
        exact List.mem_append_left _ (List.getLast_mem ha)
      have hfirst : b.head? = some y := by
        obtain ⟨after, hafter⟩ := h
        rw [← hrest, List.append_assoc, List.append_right_inj] at hafter
        rw [← hafter]
        rfl
      have hy : Text.isIdentifierChar y = true := by
        apply hid
        rw [← hrest]
        exact List.mem_append_right _ List.mem_cons_self
      rcases hab with hend | hbegin
      · rw [Apart, List.getLast?_eq_some_getLast ha, Option.any_some, hlast] at hend
        simp at hend
      · rw [Apart, hfirst, Option.any_some, hy] at hbegin
        simp at hbegin

include hne in
theorem clear_nil (before : Text) : Clear name before [] := by
  intro skipped tail h _ hname
  obtain ⟨-, rfl⟩ := List.append_eq_nil_iff.mp h.symm
  exact hne (List.prefix_nil.mp hname)

theorem Clear.tail {before t : Text} {x : Char} (h : Clear name before (x :: t)) :
    Clear name (before ++ [x]) t := by
  intro skipped tail ht hapart
  refine h (x :: skipped) tail (by rw [ht]; rfl) ?_
  rwa [← List.append_cons] at hapart

theorem clear_cons {before t : Text} {x : Char} (hx : Apart before.getLast? → ¬ name <+: x :: t)
    (h : Clear name (before ++ [x]) t) : Clear name before (x :: t) := by
  intro skipped tail ht hapart
  cases skipped with
  | nil =>
    rw [List.append_nil] at hapart
    rw [List.nil_append] at ht
    rw [← ht]
    exact hx hapart
  | cons y skipped =>
    obtain ⟨rfl, rfl⟩ := List.cons.inj ht
    refine h skipped tail rfl ?_
    rwa [List.append_cons] at hapart

/-- Behind whatever ends no identifier, the same text is clear. -/
theorem Clear.of_apart {before front t : Text} (h : Clear name before t)
    (hbefore : Apart before.getLast?) : Clear name front t := by
  intro skipped tail ht hapart
  exact h skipped tail ht (apart_getLast?_exchange hapart hbefore)

theorem Clear.of_prefix {before a b : Text} (h : Clear name before (a ++ b)) :
    Clear name before a := by
  intro skipped tail ht hapart hname
  refine h skipped (tail ++ b) (by rw [ht, List.append_assoc]) hapart ?_
  exact hname.trans (List.prefix_append tail b)

theorem Clear.of_suffix {before a b : Text} (h : Clear name before (a ++ b)) :
    Clear name (before ++ a) b := by
  intro skipped tail ht hapart
  refine h (a ++ skipped) tail (by rw [ht, List.append_assoc]) ?_
  rwa [← List.append_assoc]

include hid in
theorem Clear.append {before a b : Text} (ha : Clear name before a) (hab : a = [] ∨ Parted a b)
    (hb : Clear name (before ++ a) b) : Clear name before (a ++ b) := by
  intro skipped tail ht hapart hname
  rcases List.append_eq_append_iff.mp ht with ⟨e, rfl, rfl⟩ | ⟨e, rfl, rfl⟩
  · rw [← List.append_assoc] at hapart
    exact hb e tail rfl hapart hname
  · by_cases he : e = []
    · subst he
      rw [List.append_nil] at hb
      refine hb [] b rfl ?_ hname
      rwa [List.append_nil]
    · have hpart : Parted e b := by
        rcases hab with hnil | hlast | hfirst
        · exact absurd (List.append_eq_nil_iff.mp hnil).2 he
        · exact Or.inl (apart_getLast?_of_append he hlast)
        · exact Or.inr hfirst
      exact ha skipped e rfl hapart (prefix_of_parted hid he hpart hname)

/-- Text without the first character of a name. -/
theorem clear_of_not_mem {first : Char} {rest before t : Text} (h : first ∉ t) :
    Clear (first :: rest) before t := by
  intro skipped tail ht _ hname
  obtain ⟨after, rfl⟩ := hname
  apply h
  rw [ht]
  exact List.mem_append_right skipped List.mem_cons_self

/-! ## Scanning a laid out cut -/

include hne hid in
/-- A scan walks over clear text. -/
theorem Cut.behind_append {before a b : Text} (ha : Clear name before a)
    (hab : a = [] ∨ Parted a b) :
    behind name before (a ++ b) = (behind name (before ++ a) b).prepend a := by
  induction a generalizing before with
  | nil => rw [List.nil_append, List.append_nil, prepend_nil]
  | cons x a ih =>
    have hparted : Parted (x :: a) b := hab.resolve_left (List.cons_ne_nil x a)
    have hfront : Call.front? name before.getLast? (Text.byteSize before) (x :: (a ++ b)) =
        none := by
      rw [← Option.not_isSome_iff_eq_none, Option.isSome_iff_exists]
      intro hcall
      obtain ⟨⟨c, rest⟩, hcall⟩ := hcall
      obtain ⟨tail, hname, hread⟩ := Option.bind_eq_some_iff.mp hcall
      obtain ⟨hapart, -⟩ := Call.readBehind?_eq_some_iff.mp hread
      refine ha [] (x :: a) rfl (by rwa [List.append_nil]) ?_
      refine prefix_of_parted hid (List.cons_ne_nil x a) hparted ?_
      exact ⟨tail, (Text.behind?_eq_some_iff.mp hname).symm⟩
    have hrest : a = [] ∨ Parted a b := by
      cases a with
      | nil => exact Or.inl rfl
      | cons y a => exact Or.inr hparted
    rw [List.cons_append, behind_cons hne hid hfront, ih ha.tail hrest, prepend_prepend,
      ← List.append_cons]
    rfl

include hne hid in
theorem Cut.behind_of_clear {before t : Text} (h : Clear name before t) :
    behind name before t = .last t := by
  have hwalk := behind_append hne hid h (b := []) (Or.inr (Or.inr apart_none))
  rwa [List.append_nil, behind_nil, prepend, List.append_nil] at hwalk

end Name

/-- A complete call, wherever it stands. -/
structure Call.Complete (c : Call) : Prop where
  gap_blank : ∀ x ∈ c.gap, isGapChar x = true
  closed : Closed c.arguments

/-- The calls of `name` in a cut of the text behind `before` are the only places of the name. -/
def Cut.Laid (name : Text) : Text → Cut → Prop
  | before, .last t => Clear name before t
  | before, .call gap c after =>
    Clear name before gap ∧ Apart (before ++ gap).getLast? ∧
      (if c.callee = name then c.Complete else Clear name [] c.text) ∧ after.Laid name []

/-- What may stand in place of the calls of other names. -/
structure Clean (name t : Text) : Prop where
  clear : Clear name [] t
  apart : Apart t.getLast?

namespace Call

theorem front?_text {c : Call} (h : c.Complete) {before : Text} (hb : Apart before.getLast?)
    (rest : Text) : front? c.callee before.getLast? (Text.byteSize before) (c.text ++ rest) =
      some (⟨Text.byteSize before, c.callee, c.gap, c.arguments⟩, rest) := by
  have hread : read? (Text.byteSize before) c.callee
      (c.gap ++ '(' :: (c.arguments ++ ')' :: rest)) =
      some (⟨Text.byteSize before, c.callee, c.gap, c.arguments⟩, rest) :=
    read?_eq_some_iff.mpr ⟨rfl, rfl, h.gap_blank, _, rfl, argumentSpan_of_closed h.closed rest⟩
  have htext : c.text ++ rest = c.callee ++ (c.gap ++ '(' :: (c.arguments ++ ')' :: rest)) := by
    simp [text]
  rw [front?, htext, Text.behind?_eq_some_iff.mpr rfl]
  exact readBehind?_eq_some_iff.mpr ⟨hb, hread⟩

end Call

namespace Cut

theorem Laid.of_apart {name before front : Text} {k : Cut} (h : k.Laid name before)
    (hbefore : Apart before.getLast?) (hfront : Apart front.getLast?) : k.Laid name front := by
  cases k with
  | last t => exact Clear.of_apart h hbefore
  | call gap c after =>
    obtain ⟨hclear, hapart, hrest⟩ := h
    exact ⟨hclear.of_apart hbefore, apart_getLast?_exchange hapart hfront, hrest⟩

/-- A scan finds the calls of its name in a laid out cut, whatever clean text the others are filled
with.  The induction is on the cut; the text that has been scanned never ends in an identifier. -/
theorem fill_behind {name : Text} (hne : name ≠ [])
    (hid : ∀ x ∈ name, Text.isIdentifierChar x = true) {h f : Call → Text}
    (hf : ∀ start c, f { c with start := start } = f c) {k : Cut} {before : Text}
    (hbefore : Apart before.getLast?) (hk : k.Laid name before)
    (hown : ∀ c ∈ k.calls, c.callee = name → h c = c.text)
    (hother : ∀ c ∈ k.calls, c.callee ≠ name → Clean name (h c)) :
    (behind name before (k.fill h)).fill f =
      k.fill fun c => if c.callee = name then f c else h c := by
  induction k generalizing before with
  | last t => rw [fill, behind_of_clear hne hid hk, fill, fill]
  | call gap c after ih =>
    obtain ⟨hclear, hapart, hcall, hafter⟩ := hk
    have hmem : c ∈ (Cut.call gap c after).calls := List.mem_cons_self
    have hgap := eq_nil_or_parted hapart (h c ++ after.fill h)
    rw [fill, List.append_assoc, behind_append hne hid hclear hgap, fill_prepend, fill]
    have hrest : ∀ front : Text, Apart front.getLast? →
        (behind name front (after.fill h)).fill f =
          after.fill fun c => if c.callee = name then f c else h c := by
      intro front hfront
      exact ih hfront (hafter.of_apart apart_none hfront)
        (fun e he => hown e (List.mem_cons_of_mem c he))
        (fun e he => hother e (List.mem_cons_of_mem c he))
    by_cases hcallee : c.callee = name
    · rw [if_pos hcallee] at hcall
      have hfront := Call.front?_text hcall hapart (after.fill h)
      rw [hcallee] at hfront
      rw [hown c hmem hcallee, behind_of_front? hne hfront, fill, if_pos hcallee,
        List.nil_append, ← hcallee, hf (Text.byteSize (before ++ gap)) c, hcallee,
        hrest _ (apart_getLast?_append hapart (Call.apart_text _)), List.append_assoc]
    · obtain ⟨hclean, hend⟩ := hother c hmem hcallee
      rw [behind_append hne hid (hclean.of_apart apart_none) (Or.inr (Or.inl hend)),
        fill_prepend, if_neg hcallee, hrest _ (apart_getLast?_append hapart hend),
        List.append_assoc]

theorem Laid.clear_text {name before : Text} {k : Cut} (h : k.Laid name before) {c : Call}
    (hc : c ∈ k.calls) (hcallee : c.callee ≠ name) : Clear name [] c.text := by
  induction k generalizing before with
  | last t => simp [calls] at hc
  | call gap first after ih =>
    obtain ⟨-, -, hfirst, hafter⟩ := h
    rcases List.mem_cons.mp hc with rfl | hc
    · rwa [if_neg hcallee] at hfirst
    · exact ih hafter hc

theorem fill_congr {f g : Call → Text} {k : Cut} (h : ∀ c ∈ k.calls, f c = g c) :
    k.fill f = k.fill g := by
  induction k with
  | last t => rfl
  | call gap c after ih =>
    rw [fill, fill, h c List.mem_cons_self, ih fun e he => h e (List.mem_cons_of_mem c he)]

end Cut

/-! ## The common cut of two names -/

namespace Call

/-- Every place of a name in a source that continues no identifier is a call that is found. -/
def Everywhere (name source : Text) : Prop :=
  ∀ before tail, source = before ++ tail → Apart before.getLast? → name <+: tail →
    ∃ c ∈ findAll name source, c.start = Text.byteSize before

theorem Everywhere.begins {name source before tail : Text} (hne : name ≠ [])
    (hid : ∀ x ∈ name, Text.isIdentifierChar x = true) (h : Everywhere name source)
    (hsource : source = before ++ tail) (hapart : Apart before.getLast?) (hname : name <+: tail) :
    ∃ c ∈ findAll name source, Begins name before tail c := by
  obtain ⟨c, hc, hstart⟩ := h before tail hsource hapart hname
  obtain ⟨⟨front, rest, hplace, hb⟩, -⟩ := (mem_findAll_iff hne hid source c).mp hc
  obtain ⟨rfl, rfl⟩ := Text.eq_of_byteSize_eq (hsource.symm.trans hplace)
    (hstart.symm.trans hb.start_eq)
  exact ⟨c, hc, hb⟩

def Disjoint (c d : Call) : Prop := c.stop ≤ d.start ∨ d.stop ≤ c.start

theorem Disjoint.symm {c d : Call} (h : Disjoint c d) : Disjoint d c := Or.symm h

theorem Begins.complete {name before tail : Text} {c : Call} (h : Begins name before tail c) :
    c.Complete where
  gap_blank := by
    intro x hx
    rcases h.gap_blank x hx with rfl | rfl <;> decide
  closed := by
    obtain ⟨inner, rest, -, hspan⟩ := h.closed
    exact closed_of_argumentSpan hspan

/-- A call of one name holds no place of another whose calls it does not overlap. -/
theorem Begins.clear_text {name other source before tail : Text} {c : Call} (hne : other ≠ [])
    (h : Begins name before tail c) (hsource : source = before ++ tail)
    (hother : Everywhere other source) (hdisjoint : ∀ e ∈ findAll other source, Disjoint c e) :
    Clear other [] c.text := by
  intro skipped rest htext hapart hname
  obtain ⟨after, hfront⟩ := begins_iff.mp h
  have htail := text_of_front? hfront
  have hplace : source = (before ++ skipped) ++ (rest ++ after) := by
    rw [hsource, htail, htext]
    simp
  obtain ⟨e, he, hstart⟩ := hother _ _ hplace (apart_getLast?_append h.apart hapart)
    (hname.trans (List.prefix_append rest after))
  have hrest : rest ≠ [] := by
    intro hnil
    rw [hnil] at hname
    exact hne (List.prefix_nil.mp hname)
  have hpos := Text.byteSize_pos hrest
  have hstop := stop_eq h.start_eq
  have hlt := e.start_lt_stop
  rw [Text.byteSize_append, htext, Text.byteSize_append] at hstop
  rw [Text.byteSize_append] at hstart
  rcases hdisjoint e he with hle | hle
  · omega
  · have := h.start_eq
    omega

end Call

namespace Cut

/-- A cut of the text behind `before` at the calls of two names. -/
structure Layout (first second before t : Text) (k : Cut) : Prop where
  text : k.fill Call.text = t
  laid_first : k.Laid first before
  laid_second : k.Laid second before
  named : ∀ c ∈ k.calls, c.callee = first ∨ c.callee = second

section Layout

variable {first second : Text}

theorem Layout.symm {before t : Text} {k : Cut} (h : Layout first second before t k) :
    Layout second first before t k :=
  ⟨h.text, h.laid_second, h.laid_first, fun c hc => (h.named c hc).symm⟩

theorem Laid.prepend {name before t : Text} {x : Char} {k : Cut} (ht : k.fill Call.text = t)
    (hx : ¬ (Apart before.getLast? ∧ name <+: x :: t)) (hk : k.Laid name (before ++ [x])) :
    (k.prepend [x]).Laid name before := by
  have hclear : ∀ gap : Text, gap <+: t → Clear name (before ++ [x]) gap →
      Clear name before (x :: gap) := by
    intro gap hgap h
    refine clear_cons (fun hapart hname => hx ⟨hapart, hname.trans ?_⟩) h
    exact (List.prefix_cons_inj x).mpr hgap
  cases k with
  | last u =>
    rw [fill] at ht
    subst ht
    exact hclear u (List.prefix_refl u) hk
  | call gap c after =>
    obtain ⟨hgap, hapart, hrest⟩ := hk
    refine ⟨hclear gap ?_ hgap, ?_, hrest⟩
    · rw [← ht, fill, List.append_assoc]
      exact List.prefix_append gap _
    · rwa [List.append_assoc] at hapart

/-- A cut of the text behind a call of the first name gives one of the text with the call. -/
theorem Layout.cons {before tail rest : Text} {c : Call} {k : Cut} (hfirst : first ≠ [])
    (hsecond : second ≠ []) (hdistinct : first ≠ second) (hc : Call.Begins first before tail c)
    (hclear : Clear second [] c.text) (htail : tail = c.text ++ rest)
    (h : Layout first second (before ++ c.text) rest k) :
    Layout first second before tail (.call [] c k) := by
  have hapart : Apart before.getLast? := hc.apart
  have hafter : Apart (before ++ c.text).getLast? := apart_getLast?_append hapart c.apart_text
  have hbegin : Apart (before ++ ([] : Text)).getLast? := by rwa [List.append_nil]
  refine ⟨?_, ⟨clear_nil hfirst before, hbegin, ?_, h.laid_first.of_apart hafter apart_none⟩,
    ⟨clear_nil hsecond before, hbegin, ?_, h.laid_second.of_apart hafter apart_none⟩, ?_⟩
  · rw [fill, h.text, htail, List.nil_append]
  · rw [if_pos hc.callee_eq]
    exact hc.complete
  · rw [if_neg (by rw [hc.callee_eq]; exact hdistinct)]
    exact hclear
  · intro e he
    rcases List.mem_cons.mp he with rfl | he
    · exact Or.inl hc.callee_eq
    · exact h.named e he

/-- A source whose places of two names are all calls that do not overlap is laid out for both. -/
theorem exists_layout (hfirst : first ≠ []) (hsecond : second ≠ []) (hdistinct : first ≠ second)
    (hidfirst : ∀ x ∈ first, Text.isIdentifierChar x = true)
    (hidsecond : ∀ x ∈ second, Text.isIdentifierChar x = true) {source : Text}
    (hallfirst : Call.Everywhere first source) (hallsecond : Call.Everywhere second source)
    (hdisjoint : ∀ c ∈ Call.findAll first source, ∀ e ∈ Call.findAll second source,
      c.Disjoint e) (before t : Text) (hsource : source = before ++ t) :
    ∃ k, Layout first second before t k := by
  induction hn : t.length using Nat.strongRecOn generalizing before t with
  | ind n ih =>
    subst hn
    have hbehind : ∀ (c : Call) (rest : Text), t = c.text ++ rest →
        ∃ k, Layout first second (before ++ c.text) rest k := by
      intro c rest ht
      refine ih rest.length ?_ _ rest ?_ rfl
      · rw [ht]
        exact length_lt_append c.text_ne_nil rest
      · rw [hsource, ht, List.append_assoc]
    by_cases hf : Apart before.getLast? ∧ first <+: t
    · obtain ⟨c, hc, hb⟩ := hallfirst.begins hfirst hidfirst hsource hf.1 hf.2
      obtain ⟨rest, hfront⟩ := Call.begins_iff.mp hb
      have ht := Call.text_of_front? hfront
      obtain ⟨k, hk⟩ := hbehind c rest ht
      have hclear := hb.clear_text hsecond hsource hallsecond (hdisjoint c hc)
      exact ⟨_, hk.cons hfirst hsecond hdistinct hb hclear ht⟩
    by_cases hs : Apart before.getLast? ∧ second <+: t
    · obtain ⟨c, hc, hb⟩ := hallsecond.begins hsecond hidsecond hsource hs.1 hs.2
      obtain ⟨rest, hfront⟩ := Call.begins_iff.mp hb
      have ht := Call.text_of_front? hfront
      obtain ⟨k, hk⟩ := hbehind c rest ht
      have hclear := hb.clear_text hfirst hsource hallfirst
        fun e he => (hdisjoint e he c hc).symm
      exact ⟨_, (hk.symm.cons hsecond hfirst hdistinct.symm hb hclear ht).symm⟩
    cases t with
    | nil =>
      refine ⟨.last [], rfl, clear_nil hfirst before, clear_nil hsecond before, ?_⟩
      intro c hc
      simp [calls] at hc
    | cons x t =>
      obtain ⟨k, hk⟩ := ih t.length (by simp) (before ++ [x]) t (by rw [hsource]; simp) rfl
      refine ⟨k.prepend [x], ?_, hk.laid_first.prepend hk.text hf,
        hk.laid_second.prepend hk.text hs, ?_⟩
      · rw [fill_prepend, hk.text]
        rfl
      · intro c hc
        rw [calls_prepend] at hc
        exact hk.named c hc

end Layout

end Cut

end Sketch
end SketchPreview
