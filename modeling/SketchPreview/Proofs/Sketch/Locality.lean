import SketchPreview.Proofs.Sketch.Layout

/-!
Calls are found where they stand: a text is searched piece by piece.

What is found in a text depends on the text in front of it only through the offsets, if no
identifier is continued (`behind_shift`).  And a cut of a text in two that goes through no call is a
cut of what is found (`behind_join`).  The second needs an argument, since a name in the first piece
may fail in that piece for want of a closing parenthesis and find one in the second: then its call
is found in the whole, and it is a call that the cut goes through.

`findAll_append` puts the two together, for the calls and for what replaces them.
-/

namespace SketchPreview
namespace Sketch

namespace Call

/-- The same call behind `n` more bytes. -/
def shift (n : Nat) (c : Call) : Call := { c with start := n + c.start }

/-- Whether a cut at byte `n` goes through a call. -/
def Straddles (n : Nat) (c : Call) : Prop := c.start < n ∧ n < c.stop

instance (n : Nat) (c : Call) : Decidable (c.Straddles n) := inferInstanceAs (Decidable (_ ∧ _))

theorem read?_shift (n start : Nat) (callee t : Text) : read? (n + start) callee t =
    (read? start callee t).map fun (c, rest) => (c.shift n, rest) := by
  unfold read?
  split
  · split <;> rfl
  · rfl

theorem front?_shift {p q : Option Char}
    (h : p.any Text.isIdentifierChar = q.any Text.isIdentifierChar) (n start : Nat)
    (callee t : Text) : front? callee p (n + start) t =
      (front? callee q start t).map fun (c, rest) => (c.shift n, rest) := by
  rw [front?, front?]
  cases Text.behind? callee t with
  | none => rfl
  | some after =>
    rw [Option.bind_some, Option.bind_some, readBehind?, readBehind?, h, read?_shift]
    split <;> rfl

/-- A call begins whatever stands behind its parenthesis. -/
theorem Begins.front?_text {callee before tail : Text} {c : Call} (h : Begins callee before tail c)
    (u : Text) :
    front? callee before.getLast? (Text.byteSize before) (c.text ++ u) = some (c, u) := by
  have hfront := Call.front?_text h.complete h.apart u
  have hcall : (⟨Text.byteSize before, c.callee, c.gap, c.arguments⟩ : Call) = c := by
    rw [← h.start_eq]
  rwa [hcall, h.callee_eq] at hfront

end Call

namespace Cut

/-! ## Behind other text -/

def shift (n : Nat) : Cut → Cut
  | .last t => .last t
  | .call before c after => .call before (c.shift n) (after.shift n)

theorem shift_prepend (n : Nat) (t : Text) (k : Cut) :
    (k.prepend t).shift n = (k.shift n).prepend t := by
  cases k <;> rfl

theorem calls_shift (n : Nat) (k : Cut) : (k.shift n).calls = k.calls.map (Call.shift n) := by
  induction k with
  | last t => rfl
  | call before c after ih => rw [shift, calls, ih, calls, List.map_cons]

theorem fill_shift {f : Call → Text} (hf : ∀ start c, f { c with start := start } = f c) (n : Nat)
    (k : Cut) : (k.shift n).fill f = k.fill f := by
  induction k with
  | last t => rfl
  | call before c after ih => rw [shift, fill, ih, fill, Call.shift, hf]

section Identifier

variable {callee : Text} (hne : callee ≠ [])
  (hid : ∀ x ∈ callee, Text.isIdentifierChar x = true)

include hne hid

theorem behind_shift {front : Text} (hfront : Apart front.getLast?) (before t : Text) :
    behind callee (front ++ before) t = (behind callee before t).shift (Text.byteSize front) := by
  have hlast : ∀ before : Text, (front ++ before).getLast?.any Text.isIdentifierChar =
      before.getLast?.any Text.isIdentifierChar := by
    intro before
    rw [List.getLast?_append]
    cases hl : before.getLast? with
    | none => rw [Option.none_or]; exact hfront
    | some x => rfl
  have hmove : ∀ before t : Text, Call.front? callee (front ++ before).getLast?
      (Text.byteSize (front ++ before)) t =
        (Call.front? callee before.getLast? (Text.byteSize before) t).map
          fun (c, rest) => (c.shift (Text.byteSize front), rest) := by
    intro before t
    rw [Text.byteSize_append]
    exact Call.front?_shift (hlast before) _ _ _ _
  induction before, t using behind_induction hne hid with
  | nil before => rw [behind_nil, shift]
  | pass before x t hf ih =>
    have hfail := hmove before (x :: t)
    rw [hf, Option.map_none] at hfail
    rw [behind_cons hne hid hfail, List.append_assoc, ih, shift_prepend]
  | call before t c rest hf ih =>
    have hcall := hmove before t
    rw [hf, Option.map_some] at hcall
    have htext : (c.shift (Text.byteSize front)).text = c.text := rfl
    rw [behind_of_front? hne hcall, htext, List.append_assoc, ih, shift]

/-- What is found in a text is the same wherever it stands, offsets apart. -/
theorem fill_behind_eq {f : Call → Text} (hf : ∀ start c, f { c with start := start } = f c)
    {before : Text} (hbefore : Apart before.getLast?) (t : Text) :
    (behind callee before t).fill f = Call.replaceAll callee f t := by
  have hshift := behind_shift hne hid hbefore [] t
  rw [List.append_nil] at hshift
  rw [hshift, fill_shift hf]
  rfl

end Identifier

/-! ## Two pieces of a text -/

/-- The cut of a text and the cut of what stands behind it, as one. -/
def join : Cut → Cut → Cut
  | .last t, k => k.prepend t
  | .call before c after, k => .call before c (after.join k)

theorem join_prepend (t : Text) (k l : Cut) : (k.prepend t).join l = (k.join l).prepend t := by
  cases k with
  | last u => rw [prepend, join, join, prepend_prepend]
  | call before c after => rfl

theorem calls_join (k l : Cut) : (k.join l).calls = k.calls ++ l.calls := by
  induction k with
  | last t => rw [join, calls_prepend, calls, List.nil_append]
  | call before c after ih => rw [join, calls, ih, calls, List.cons_append]

theorem fill_join (f : Call → Text) (k l : Cut) : (k.join l).fill f = k.fill f ++ l.fill f := by
  induction k with
  | last t => rw [join, fill_prepend, fill]
  | call before c after ih => simp only [join, fill, ih, List.append_assoc]

/-- A text is searched piece by piece, if no call that is found reaches from one piece into the
other.  The induction is on the search of the first piece. -/
theorem behind_join {callee : Text} (hne : callee ≠ [])
    (hid : ∀ x ∈ callee, Text.isIdentifierChar x = true) {before a b : Text}
    (h : ∀ c ∈ (behind callee before (a ++ b)).calls, ¬ c.Straddles (Text.byteSize (before ++ a))) :
    behind callee before (a ++ b) =
      (behind callee before a).join (behind callee (before ++ a) b) := by
  induction before, a using behind_induction hne hid with
  | nil before => rw [List.nil_append, List.append_nil, join, prepend_nil]
  | pass before x a hf ih =>
    have hfail : Call.front? callee before.getLast? (Text.byteSize before) (x :: (a ++ b)) =
        none := by
      rw [← Option.not_isSome_iff_eq_none, Option.isSome_iff_exists]
      intro hsome
      obtain ⟨⟨c, rest⟩, hcall⟩ := hsome
      have hmem : c ∈ (behind callee before (x :: (a ++ b))).calls := by
        rw [behind_of_front? hne hcall]
        exact List.mem_cons_self
      have hbegins := Call.begins_iff.mpr ⟨rest, hcall⟩
      have htext : c.text ++ rest = (x :: a) ++ b := (Call.text_of_front? hcall).symm
      have hstop := Call.stop_eq hbegins.start_eq
      have hpos := Text.byteSize_cons_pos x a
      have hcut := h c hmem
      rw [Call.Straddles, hbegins.start_eq, hstop, Text.byteSize_append, Text.byteSize_append,
        not_and_or] at hcut
      -- The call ends in the first piece, so it is a call of that piece.
      obtain ⟨e, he, -⟩ := Text.exists_append_of_byteSize_le htext (by omega)
      rw [he, hbegins.front?_text e] at hf
      simp at hf
    have hsplit := behind_cons hne hid hfail
    rw [List.cons_append, hsplit, ih, join_prepend, List.append_assoc, List.singleton_append]
    intro c hc
    rw [List.cons_append, hsplit, calls_prepend] at h
    rw [List.append_assoc, List.singleton_append]
    exact h c hc
  | call before a c rest hf ih =>
    have hbegins := Call.begins_iff.mpr ⟨rest, hf⟩
    obtain rfl : a = c.text ++ rest := Call.text_of_front? hf
    have hsplit := behind_of_front? hne (hbegins.front?_text (rest ++ b))
    rw [List.append_assoc, hsplit, ih, join, List.append_assoc]
    intro e he
    rw [List.append_assoc, hsplit] at h
    rw [List.append_assoc]
    exact h e (List.mem_cons_of_mem c he)

end Cut

namespace Call

/-- The calls of two texts in a row are the calls of the first and, shifted, the calls of the
second, if no identifier is continued between them and no call that is found reaches from one into
the other.  So a replacement that does not look at where a call stands replaces in each by itself.
-/
theorem findAll_append {callee : Text} (hne : callee ≠ [])
    (hid : ∀ x ∈ callee, Text.isIdentifierChar x = true) {a b : Text} (ha : Apart a.getLast?)
    (h : ∀ c ∈ findAll callee (a ++ b), ¬ c.Straddles (Text.byteSize a)) :
    findAll callee (a ++ b) =
        findAll callee a ++ (findAll callee b).map (shift (Text.byteSize a)) ∧
      ∀ f : Call → Text, (∀ start c, f { c with start := start } = f c) →
        replaceAll callee f (a ++ b) = replaceAll callee f a ++ replaceAll callee f b := by
  have hjoin : Cut.behind callee [] (a ++ b) =
      (Cut.behind callee [] a).join (Cut.behind callee a b) :=
    Cut.behind_join hne hid h
  have hshift := Cut.behind_shift hne hid ha [] b
  rw [List.append_nil] at hshift
  constructor
  · show (Cut.behind callee [] (a ++ b)).calls = _
    rw [hjoin, Cut.calls_join, hshift, Cut.calls_shift]
    rfl
  · intro f hf
    show (Cut.behind callee [] (a ++ b)).fill f = _
    rw [hjoin, Cut.fill_join, Cut.fill_behind_eq hne hid hf ha]
    rfl

/-- A name at the end of the first text opens arguments that the second does not close. -/
theorem findAll_append_unclosed :
    let name := "foo".toList
    let a := "é; foo(1) foo(\n".toList
    let b := "foo\t(2), foo(3)".toList
    (name ≠ [] ∧ (∀ x ∈ name, Text.isIdentifierChar x = true) ∧ Apart a.getLast? ∧
        ∀ c ∈ findAll name (a ++ b), ¬ c.Straddles (Text.byteSize a)) ∧
      findAll name (a ++ b) =
        [⟨4, name, [], ['1']⟩, ⟨16, name, ['\t'], ['2']⟩, ⟨25, name, [], ['3']⟩] ∧
      replaceAll name arguments (a ++ b) =
        replaceAll name arguments a ++ replaceAll name arguments b := by
  intro name a b
  have hne : name ≠ [] := by decide
  have hid : ∀ x ∈ name, Text.isIdentifierChar x = true := List.all_eq_true.mp (by decide)
  have hapart : Apart a.getLast? := by decide
  have heval : ∀ t, findAll name t = everyPosition name [] 0 t := fun t =>
    calls_behind_eq hne hid [] t (Nat.le_refl 0)
  have hborder : ∀ c ∈ findAll name (a ++ b), ¬ c.Straddles (Text.byteSize a) := by
    rw [heval]
    decide
  obtain ⟨hcalls, hreplaced⟩ := findAll_append hne hid hapart hborder
  refine ⟨⟨hne, hid, hapart, hborder⟩, ?_, hreplaced arguments fun _ _ => rfl⟩
  rw [hcalls, heval, heval]
  decide

end Call
end Sketch
end SketchPreview
