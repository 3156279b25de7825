import SketchPreview.Proofs.Sketch.Spans

/-!
The scan for calls, character by character.

`Cut.scan` jumps: to the next occurrence of the name, from a failed occurrence to behind the name,
and from a call to behind its parenthesis.  For a name made of identifier characters none of these
jumps passes over a call, and the scan obeys two laws that mention no jump at all.  Where no call
begins it moves on by one character (`scan_cons`), and where one begins it takes it
(`scan_of_front?`).  The first law is the one with content: behind an identifier character no call
begins, so the rest of a failed name may be walked through, whatever further occurrences of the name
overlap it (`scan_append`).

`behind_induction` packs the two laws into an induction over the scan of a text that stands behind
another.  From it come `mem_calls_behind_iff`, which says which calls are found without mentioning
the scan, and `calls_behind_eq`, by which a scan that looks at every position of a source finds the
same.
-/

namespace SketchPreview
namespace Sketch

namespace Call

/-- The call whose name stands at the front of a text that stands at byte `start` behind the
character `previous`, and the text behind the call. -/
def front? (callee : Text) (previous : Option Char) (start : Nat) (t : Text) :
    Option (Call × Text) :=
  (Text.behind? callee t).bind (readBehind? previous start callee)

theorem text_of_front? {callee t rest : Text} {previous : Option Char} {start : Nat} {c : Call}
    (h : front? callee previous start t = some (c, rest)) : t = c.text ++ rest := by
  obtain ⟨after, ha, hr⟩ := Option.bind_eq_some_iff.mp h
  rw [Text.behind?_eq_some_iff.mp ha]
  exact text_of_readBehind? hr

theorem start_of_front? {callee t rest : Text} {previous : Option Char} {start : Nat} {c : Call}
    (h : front? callee previous start t = some (c, rest)) : c.start = start := by
  obtain ⟨after, -, hr⟩ := Option.bind_eq_some_iff.mp h
  exact (read?_eq_some_iff.mp (readBehind?_eq_some_iff.mp hr).2).1

/-- `c` is a complete call of `callee` that begins between `before` and `tail`. -/
structure Begins (callee before tail : Text) (c : Call) : Prop where
  /-- The name does not continue an identifier. -/
  apart : before.getLast?.any Text.isIdentifierChar = false
  start_eq : c.start = Text.byteSize before
  callee_eq : c.callee = callee
  gap_blank : ∀ x ∈ c.gap, x = ' ' ∨ x = '\t'
  closed : ∃ inner rest, tail = callee ++ c.gap ++ '(' :: inner ∧
    argumentSpan inner = .closed c.arguments rest

theorem begins_iff {callee before tail : Text} {c : Call} :
    Begins callee before tail c ↔
      ∃ rest, front? callee before.getLast? (Text.byteSize before) tail = some (c, rest) := by
  constructor
  · intro h
    obtain ⟨hp, hs, hc, hg, inner, rest, rfl, ha⟩ := h
    refine ⟨rest, Option.bind_eq_some_iff.mpr ⟨c.gap ++ '(' :: inner, ?_, ?_⟩⟩
    · exact Text.behind?_eq_some_iff.mpr (List.append_assoc _ _ _)
    · refine readBehind?_eq_some_iff.mpr ⟨hp, read?_eq_some_iff.mpr ⟨hs, hc, ?_, inner, rfl, ha⟩⟩
      intro x hx
      rcases hg x hx with rfl | rfl <;> decide
  · intro h
    obtain ⟨rest, hfront⟩ := h
    obtain ⟨after, ha, hr⟩ := Option.bind_eq_some_iff.mp hfront
    obtain ⟨hp, hr⟩ := readBehind?_eq_some_iff.mp hr
    obtain ⟨hs, hc, hg, inner, rfl, hspan⟩ := read?_eq_some_iff.mp hr
    refine ⟨hp, hs, hc, fun x hx => by simpa [isGapChar] using hg x hx, inner, rest, ?_, hspan⟩
    rw [Text.behind?_eq_some_iff.mp ha, List.append_assoc]

theorem Begins.unique {callee before tail : Text} {c d : Call} (hc : Begins callee before tail c)
    (hd : Begins callee before tail d) : c = d := by
  obtain ⟨r, hc⟩ := begins_iff.mp hc
  obtain ⟨s, hd⟩ := begins_iff.mp hd
  rw [hc] at hd
  simp only [Option.some.injEq, Prod.mk.injEq] at hd
  exact hd.1

/-- `c` is a complete call of `callee` that begins somewhere in the text `t` behind `before`. -/
def Stands (callee before t : Text) (c : Call) : Prop :=
  ∃ skipped tail, t = skipped ++ tail ∧ Begins callee (before ++ skipped) tail c

theorem Begins.stands {callee before t : Text} {c : Call} (h : Begins callee before t c) :
    Stands callee before t c :=
  ⟨[], t, rfl, by rwa [List.append_nil]⟩

theorem Stands.append {callee before t u : Text} {c : Call} (h : Stands callee (before ++ t) u c) :
    Stands callee before (t ++ u) c := by
  obtain ⟨skipped, tail, rfl, hb⟩ := h
  rw [List.append_assoc] at hb
  exact ⟨t ++ skipped, tail, (List.append_assoc t skipped tail).symm, hb⟩

/-- A call begins at the front of a text or behind the first piece of it, unless it begins inside of
that piece. -/
theorem Stands.begins_or {callee before t u : Text} {c : Call} (h : Stands callee before (t ++ u) c)
    (hs : Text.byteSize before < c.start → Text.byteSize (before ++ t) ≤ c.start) :
    Begins callee before (t ++ u) c ∨ Stands callee (before ++ t) u c := by
  obtain ⟨skipped, tail, ht, hb⟩ := h
  by_cases hskip : skipped = []
  · subst hskip
    rw [List.append_nil] at hb
    obtain rfl : t ++ u = tail := ht
    exact Or.inl hb
  · right
    have hpos := Text.byteSize_pos hskip
    have hcs := hb.start_eq
    rw [Text.byteSize_append] at hcs
    have hle := hs (by omega)
    rw [Text.byteSize_append] at hle
    obtain ⟨e, rfl, rfl⟩ := Text.exists_append_of_byteSize_le ht (by omega)
    rw [← List.append_assoc] at hb
    exact ⟨e, tail, rfl, hb⟩

theorem not_stands_nil (callee before : Text) (c : Call) : ¬ Stands callee before [] c := by
  intro h
  obtain ⟨skipped, tail, ht, hb⟩ := h
  obtain ⟨rfl, rfl⟩ := List.append_eq_nil_iff.mp ht.symm
  obtain ⟨inner, rest, hcall, -⟩ := hb.closed
  simp at hcall

/-- Where no call begins, one stands in the text if one stands behind the first character. -/
theorem stands_cons_iff {callee before t : Text} {x : Char} {c : Call}
    (h : front? callee before.getLast? (Text.byteSize before) (x :: t) = none) :
    Stands callee before (x :: t) c ↔ Stands callee (before ++ [x]) t c := by
  constructor
  · intro hstands
    obtain ⟨skipped, tail, ht, hb⟩ := hstands
    cases skipped with
    | nil =>
      obtain rfl : x :: t = tail := ht
      rw [List.append_nil] at hb
      obtain ⟨rest, hfront⟩ := begins_iff.mp hb
      rw [h] at hfront
      simp at hfront
    | cons y skipped =>
      obtain ⟨rfl, rfl⟩ := List.cons.inj ht
      rw [List.append_cons] at hb
      exact ⟨skipped, tail, rfl, hb⟩
  · intro hstands
    exact hstands.append (t := [x])

end Call

namespace Cut

theorem getLast?_cons_eq_or (x : Char) (t : Text) :
    (x :: t).getLast? = t.getLast?.or (some x) := by
  cases ht : t.getLast? <;> simp [List.getLast?_cons, ht]

theorem length_lt_append {s : Text} (hs : s ≠ []) (t : Text) : t.length < (s ++ t).length := by
  have hpos := List.length_pos_iff.mpr hs
  rw [List.length_append]
  omega

@[simp] theorem prepend_nil (k : Cut) : k.prepend [] = k := by
  cases k <;> rfl

@[simp] theorem prepend_prepend (a b : Text) (k : Cut) :
    (k.prepend b).prepend a = k.prepend (a ++ b) := by
  cases k <;> simp [prepend]

/-! ## One step of the scan -/

section Steps

variable {callee : Text} {offset : Nat} {previous : Option Char}

theorem scan_eq (hc : callee ≠ []) (t : Text) : scan callee offset previous t =
    match Text.cutAt? callee t with
    | none => .last t
    | some (before, tail) =>
      match Call.readBehind? (before.getLast?.or previous) (offset + Text.byteSize before) callee
        tail with
      | none =>
        (scan callee (offset + Text.byteSize before + Text.byteSize callee) callee.getLast?
          tail).prepend (before ++ callee)
      | some (c, rest) => .call before c (scan callee c.stop (some ')') rest) := by
  rw [scan, dif_neg hc]
  split
  · rename_i hcut
    rw [hcut]
  · rename_i before tail hcut
    simp only [hcut]
    split
    · rename_i hread
      simp only [hread]
    · rename_i c rest hread
      simp only [hread]

theorem scan_of_no_name {t : Text} (hc : callee ≠ []) (ht : Text.cutAt? callee t = none) :
    scan callee offset previous t = .last t := by
  rw [scan_eq hc, ht]

theorem scan_of_failed_name {t before tail : Text} (hc : callee ≠ [])
    (ht : Text.cutAt? callee t = some (before, tail))
    (hr : Call.readBehind? (before.getLast?.or previous) (offset + Text.byteSize before) callee tail
      = none) :
    scan callee offset previous t =
      (scan callee (offset + Text.byteSize before + Text.byteSize callee) callee.getLast?
        tail).prepend (before ++ callee) := by
  rw [scan_eq hc, ht]
  dsimp only
  rw [hr]

theorem scan_of_call {t before tail rest : Text} {c : Call} (hc : callee ≠ [])
    (ht : Text.cutAt? callee t = some (before, tail))
    (hr : Call.readBehind? (before.getLast?.or previous) (offset + Text.byteSize before) callee tail
      = some (c, rest)) :
    scan callee offset previous t = .call before c (scan callee c.stop (some ')') rest) := by
  rw [scan_eq hc, ht]
  dsimp only
  rw [hr]

theorem scan_cons_of_behind? {t : Text} {x : Char} (hc : callee ≠ [])
    (h : Text.behind? callee (x :: t) = none) :
    scan callee offset previous (x :: t) =
      (scan callee (offset + x.utf8Size) (some x) t).prepend [x] := by
  have hcut := Text.cutAt?_cons h
  cases ht : Text.cutAt? callee t with
  | none =>
    rw [ht] at hcut
    rw [scan_of_no_name hc hcut, scan_of_no_name hc ht]
    rfl
  | some found =>
    obtain ⟨before, tail⟩ := found
    rw [ht] at hcut
    have hlast : (x :: before).getLast?.or previous = before.getLast?.or (some x) := by
      rw [getLast?_cons_eq_or, Option.or_assoc]
      rfl
    have hsize : offset + Text.byteSize (x :: before) =
        offset + x.utf8Size + Text.byteSize before := by
      rw [Text.byteSize_cons, Nat.add_assoc]
    cases hr : Call.readBehind? (before.getLast?.or (some x))
        (offset + x.utf8Size + Text.byteSize before) callee tail with
    | none =>
      rw [scan_of_failed_name hc hcut (by rw [hlast, hsize, hr]), scan_of_failed_name hc ht hr,
        hsize, prepend_prepend]
      rfl
    | some call =>
      rw [scan_of_call hc hcut (by rw [hlast, hsize, hr]), scan_of_call hc ht hr]
      rfl

theorem scan_of_front? {t rest : Text} {c : Call} (hc : callee ≠ [])
    (h : Call.front? callee previous offset t = some (c, rest)) :
    scan callee offset previous t = .call [] c (scan callee c.stop (some ')') rest) := by
  obtain ⟨after, ha, hr⟩ := Option.bind_eq_some_iff.mp h
  have ht : Text.cutAt? callee t = some ([], after) := by
    rw [Text.behind?_eq_some_iff.mp ha]
    exact Text.cutAt?_append hc after
  exact scan_of_call hc ht hr

/-- Behind an identifier character the name begins no call, and the scan goes on behind it. -/
theorem scan_name_append (hc : callee ≠ []) (hp : previous.any Text.isIdentifierChar = true)
    (after : Text) : scan callee offset previous (callee ++ after) =
      (scan callee (offset + Text.byteSize callee) callee.getLast? after).prepend callee := by
  have hfail : Call.readBehind? (([] : Text).getLast?.or previous) (offset + Text.byteSize [])
      callee after = none := by
    simp [Call.readBehind?, hp]
  rw [scan_of_failed_name hc (Text.cutAt?_append hc after) hfail, List.nil_append,
    Text.byteSize_nil, Nat.add_zero]

end Steps

/-! ## Walking through a failed name -/

section Identifier

variable {callee : Text} (hne : callee ≠ [])
  (hid : ∀ x ∈ callee, Text.isIdentifierChar x = true)

include hne hid

theorem any_getLast?_callee : callee.getLast?.any Text.isIdentifierChar = true := by
  rw [List.getLast?_eq_some_getLast hne]
  exact hid _ (List.getLast_mem hne)

/-- A stretch of identifier characters behind another one may be walked through.  The induction is
on the whole text, not on the stretch: a name that begins in the stretch may reach beyond it, and
the scan then goes on further behind than the stretch ends. -/
theorem scan_append {stretch : Text} (tail : Text) (offset : Nat) (previous : Option Char)
    (hs : ∀ x ∈ stretch, Text.isIdentifierChar x = true)
    (hp : previous.any Text.isIdentifierChar = true) :
    scan callee offset previous (stretch ++ tail) =
      (scan callee (offset + Text.byteSize stretch) (stretch.getLast?.or previous)
        tail).prepend stretch := by
  induction hn : (stretch ++ tail).length using Nat.strongRecOn
    generalizing stretch tail offset previous with
  | ind n ih =>
    subst hn
    cases stretch with
    | nil => simp
    | cons x stretch =>
      have hlast : ((x :: stretch).getLast?.or previous).any Text.isIdentifierChar = true := by
        rw [List.getLast?_eq_some_getLast (List.cons_ne_nil x stretch)]
        exact hs _ (List.getLast_mem _)
      cases hb : Text.behind? callee (x :: (stretch ++ tail)) with
      | none =>
        have hx : (some x).any Text.isIdentifierChar = true := hs x List.mem_cons_self
        have hrest := ih (stretch ++ tail).length (by simp) tail (offset + x.utf8Size) (some x)
          (fun y hy => hs y (List.mem_cons_of_mem x hy)) hx rfl
        rw [List.cons_append, scan_cons_of_behind? hne hb, hrest, prepend_prepend,
          getLast?_cons_eq_or, Option.or_assoc, Text.byteSize_cons, Nat.add_assoc]
        rfl
      | some after =>
        have heq : callee ++ after = (x :: stretch) ++ tail := (Text.behind?_eq_some_iff.mp hb).symm
        rw [← heq, scan_name_append hne hp]
        rcases List.append_eq_append_iff.mp heq with ⟨e, hstretch, rfl⟩ | ⟨e, rfl, rfl⟩
        · -- The name ends in the stretch.
          have hshort : (e ++ tail).length < ((x :: stretch) ++ tail).length := by
            rw [hstretch, List.append_assoc]
            exact length_lt_append hne (e ++ tail)
          have hrest := ih (e ++ tail).length hshort tail
            (offset + Text.byteSize callee) callee.getLast?
            (fun y hy => hs y (by rw [hstretch]; exact List.mem_append_right callee hy))
            (any_getLast?_callee hne hid) rfl
          rw [hrest, prepend_prepend, hstretch, Text.byteSize_append, List.getLast?_append,
            Nat.add_assoc, Option.or_assoc, List.getLast?_eq_some_getLast hne]
          rfl
        · -- The name reaches into the text behind the stretch.
          have hshort := length_lt_append (List.cons_ne_nil x stretch) (e ++ after)
          have hrest := ih (e ++ after).length hshort after
            (offset + Text.byteSize (x :: stretch)) ((x :: stretch).getLast?.or previous)
            (fun y hy => hid y (List.mem_append_right (x :: stretch) hy)) hlast rfl
          rw [hrest, prepend_prepend, List.getLast?_append, Text.byteSize_append, Nat.add_assoc,
            List.getLast?_eq_some_getLast (List.cons_ne_nil x stretch)]
          rfl

theorem scan_cons {t : Text} {x : Char} {offset : Nat} {previous : Option Char}
    (h : Call.front? callee previous offset (x :: t) = none) :
    scan callee offset previous (x :: t) =
      (scan callee (offset + x.utf8Size) (some x) t).prepend [x] := by
  cases hb : Text.behind? callee (x :: t) with
  | none => exact scan_cons_of_behind? hne hb
  | some after =>
    have hfail : Call.readBehind? previous offset callee after = none := by
      simpa [Call.front?, hb] using h
    have heq := Text.behind?_eq_some_iff.mp hb
    cases callee with
    | nil => exact absurd rfl hne
    | cons y name =>
      obtain ⟨rfl, rfl⟩ := List.cons.inj heq
      have hcut := Text.cutAt?_append hne after
      have hwalk := scan_append hne hid after (offset + x.utf8Size) (some x)
        (fun z hz => hid z (List.mem_cons_of_mem x hz)) (hid x List.mem_cons_self)
      show scan (x :: name) offset previous ((x :: name) ++ after) =
        (scan (x :: name) (offset + x.utf8Size) (some x) (name ++ after)).prepend [x]
      rw [scan_of_failed_name hne hcut hfail, hwalk, prepend_prepend,
        getLast?_cons_eq_or, Text.byteSize_nil, Text.byteSize_cons, Nat.add_zero, Nat.add_assoc]
      rfl

end Identifier

/-! ## The scan of a text behind another -/

/-- Cuts the text that stands behind `before` in a source. -/
def behind (callee before t : Text) : Cut :=
  scan callee (Text.byteSize before) before.getLast? t

theorem behind_nil (callee before : Text) : behind callee before [] = .last [] := by
  by_cases hc : callee = []
  · rw [behind, scan, dif_pos hc]
  · exact scan_of_no_name hc (by simp [Text.cutAt?, hc])

theorem behind_of_front? {callee before t rest : Text} {c : Call} (hc : callee ≠ [])
    (h : Call.front? callee before.getLast? (Text.byteSize before) t = some (c, rest)) :
    behind callee before t = .call [] c (behind callee (before ++ c.text) rest) := by
  have hlast : (before ++ c.text).getLast? = some ')' := by
    rw [Call.text, ← List.append_assoc, List.getLast?_append]
    simp [List.getLast?_cons]
  rw [behind, behind, scan_of_front? hc h, hlast, Call.stop_eq (Call.start_of_front? h)]

section Identifier

variable {callee : Text} (hne : callee ≠ [])
  (hid : ∀ x ∈ callee, Text.isIdentifierChar x = true)

include hne hid

theorem behind_cons {before t : Text} {x : Char}
    (h : Call.front? callee before.getLast? (Text.byteSize before) (x :: t) = none) :
    behind callee before (x :: t) = (behind callee (before ++ [x]) t).prepend [x] := by
  rw [behind, behind, scan_cons hne hid h, Text.byteSize_append, List.getLast?_append]
  rfl

/-- Induction over the scan: the text ends, or no call begins and one character is passed, or a call
begins and is passed as a whole. -/
theorem behind_induction {motive : Text → Text → Cut → Prop}
    (nil : ∀ before, motive before [] (.last []))
    (pass : ∀ before x t,
      Call.front? callee before.getLast? (Text.byteSize before) (x :: t) = none →
      motive (before ++ [x]) t (behind callee (before ++ [x]) t) →
      motive before (x :: t) ((behind callee (before ++ [x]) t).prepend [x]))
    (call : ∀ before t c rest,
      Call.front? callee before.getLast? (Text.byteSize before) t = some (c, rest) →
      motive (before ++ c.text) rest (behind callee (before ++ c.text) rest) →
      motive before t (.call [] c (behind callee (before ++ c.text) rest)))
    (before t : Text) : motive before t (behind callee before t) := by
  induction hn : t.length using Nat.strongRecOn generalizing before t with
  | ind n ih =>
    subst hn
    cases hf : Call.front? callee before.getLast? (Text.byteSize before) t with
    | none =>
      cases t with
      | nil =>
        rw [behind_nil]
        exact nil before
      | cons x t =>
        rw [behind_cons hne hid hf]
        exact pass before x t hf (ih t.length (by simp) _ t rfl)
    | some found =>
      obtain ⟨c, rest⟩ := found
      have hlt : rest.length < t.length := by
        rw [Call.text_of_front? hf]
        exact length_lt_append c.text_ne_nil rest
      rw [behind_of_front? hne hf]
      exact call before t c rest hf (ih rest.length hlt _ rest rfl)

/-- The calls that are found are those that stand in the text and are not covered by one found
before. -/
theorem mem_calls_behind_iff (before t : Text) (c : Call) :
    c ∈ (behind callee before t).calls ↔ Call.Stands callee before t c ∧
      ∀ d ∈ (behind callee before t).calls, d.start < c.start → d.stop ≤ c.start := by
  induction before, t using behind_induction hne hid with
  | nil before => simp [calls, Call.not_stands_nil]
  | pass before x t hf ih => rw [calls_prepend, ih, Call.stands_cons_iff hf]
  | call before t first rest hf ih =>
    have hfirst : Call.Begins callee before t first := Call.begins_iff.mpr ⟨rest, hf⟩
    have htext := Call.text_of_front? hf
    have hstop := Call.stop_eq hfirst.start_eq
    have hlater : ∀ d ∈ (behind callee (before ++ first.text) rest).calls,
        first.stop ≤ d.start := by
      rw [hstop]
      exact (placed_scan callee _ _ rest).le_start
    have hlt := first.start_lt_stop
    rw [calls, List.mem_cons]
    constructor
    · intro h
      rcases h with rfl | hc
      · refine ⟨hfirst.stands, ?_⟩
        intro d hd hlt
        rcases List.mem_cons.mp hd with rfl | hd
        · omega
        · have := hlater d hd
          omega
      · obtain ⟨hstands, hfree⟩ := ih.mp hc
        refine ⟨by rw [htext]; exact hstands.append, ?_⟩
        intro d hd hlt
        rcases List.mem_cons.mp hd with rfl | hd
        · exact hlater c hc
        · exact hfree d hd hlt
    · intro h
      obtain ⟨hstands, hfree⟩ := h
      have hbehind : Text.byteSize before < c.start →
          Text.byteSize (before ++ first.text) ≤ c.start := by
        rw [← hfirst.start_eq, ← hstop]
        exact hfree first List.mem_cons_self
      rw [htext] at hstands hfirst
      rcases hstands.begins_or hbehind with hb | hrest
      · exact Or.inl (hb.unique hfirst)
      · exact Or.inr (ih.mpr ⟨hrest, fun d hd => hfree d (List.mem_cons_of_mem first hd)⟩)

end Identifier

end Cut

namespace Call

/-! ## The plain scan -/

/-- The calls in the text behind `before` that a look at every position reports, when `free` is the
byte behind the call that was reported last. -/
def everyPosition (callee before : Text) (free : Nat) : Text → List Call
  | [] => []
  | x :: t =>
    match front? callee before.getLast? (Text.byteSize before) (x :: t) with
    | none => everyPosition callee (before ++ [x]) free t
    | some (c, _) =>
      if free ≤ c.start then c :: everyPosition callee (before ++ [x]) c.stop t
      else everyPosition callee (before ++ [x]) free t

/-- Nothing is reported inside a call. -/
theorem everyPosition_append (callee before covered : Text) (free : Nat) (t : Text)
    (h : Text.byteSize (before ++ covered) ≤ free) :
    everyPosition callee before free (covered ++ t) =
      everyPosition callee (before ++ covered) free t := by
  induction covered generalizing before with
  | nil => rw [List.nil_append, List.append_nil]
  | cons x covered ih =>
    have hx := x.utf8Size_pos
    have happ : before ++ [x] ++ covered = before ++ x :: covered := by simp
    have hrest := ih (before ++ [x]) (by rwa [happ])
    rw [happ] at hrest
    rw [Text.byteSize_append, Text.byteSize_cons] at h
    rw [List.cons_append, everyPosition]
    split
    · exact hrest
    · rename_i c rest hf
      rw [if_neg (by rw [start_of_front? hf]; omega)]
      exact hrest

theorem calls_behind_eq {callee : Text} (hne : callee ≠ [])
    (hid : ∀ x ∈ callee, Text.isIdentifierChar x = true) (before t : Text) {free : Nat}
    (hfree : free ≤ Text.byteSize before) :
    (Cut.behind callee before t).calls = everyPosition callee before free t := by
  induction before, t using Cut.behind_induction hne hid generalizing free with
  | nil before => rfl
  | pass before x t hf ih =>
    have hle : free ≤ Text.byteSize (before ++ [x]) := by
      rw [Text.byteSize_append]
      omega
    rw [Cut.calls_prepend, everyPosition, hf]
    exact ih hle
  | call before t c rest hf ih =>
    have hstart := start_of_front? hf
    have hstop := stop_eq hstart
    obtain ⟨x, covered, hc⟩ := List.exists_cons_of_ne_nil c.text_ne_nil
    obtain rfl : t = x :: (covered ++ rest) := by
      rw [text_of_front? hf, hc]
      rfl
    have happ : before ++ [x] ++ covered = before ++ c.text := by simp [hc]
    have hskip := everyPosition_append callee (before ++ [x]) covered c.stop rest
      (Nat.le_of_eq (by rw [happ, hstop]))
    rw [everyPosition, hf]
    dsimp only
    rw [if_pos (by omega), Cut.calls, hskip, happ, ih (Nat.le_of_eq hstop)]

/-- What a scan reports that looks at every position of a source. -/
structure PlainScan (callee source : Text) (calls : List Call) : Prop where
  /-- A call is reported where one begins that no call reported before covers, and only there. -/
  reported : ∀ before tail, source = before ++ tail →
    ((∃ c ∈ calls, c.start = Text.byteSize before) ↔
      (∃ c, Begins callee before tail c) ∧
        ∀ d ∈ calls, d.start < Text.byteSize before → d.stop ≤ Text.byteSize before)
  begins : ∀ c ∈ calls, ∃ before tail, source = before ++ tail ∧ Begins callee before tail c
  increasing : calls.Pairwise fun c d => c.start < d.start

theorem mem_findAll_iff {callee : Text} (hne : callee ≠ [])
    (hid : ∀ x ∈ callee, Text.isIdentifierChar x = true) (source : Text) (c : Call) :
    c ∈ findAll callee source ↔
      (∃ before tail, source = before ++ tail ∧ Begins callee before tail c) ∧
        ∀ d ∈ findAll callee source, d.start < c.start → d.stop ≤ c.start :=
  Cut.mem_calls_behind_iff hne hid [] source c

theorem plainScan_findAll {callee : Text} (hne : callee ≠ [])
    (hid : ∀ x ∈ callee, Text.isIdentifierChar x = true) (source : Text) :
    PlainScan callee source (findAll callee source) where
  reported := by
    intro before tail hsource
    constructor
    · intro h
      obtain ⟨c, hc, hstart⟩ := h
      obtain ⟨⟨front, rest, hplace, hb⟩, hfree⟩ := (mem_findAll_iff hne hid source c).mp hc
      obtain ⟨rfl, rfl⟩ := Text.eq_of_byteSize_eq (hsource.symm.trans hplace)
        (hstart.symm.trans hb.start_eq)
      rw [hstart] at hfree
      exact ⟨⟨c, hb⟩, hfree⟩
    · intro h
      obtain ⟨⟨c, hb⟩, hfree⟩ := h
      rw [← hb.start_eq] at hfree
      exact ⟨c, (mem_findAll_iff hne hid source c).mpr ⟨⟨before, tail, hsource, hb⟩, hfree⟩,
        hb.start_eq⟩
  begins := by
    intro c hc
    exact ((mem_findAll_iff hne hid source c).mp hc).1
  increasing := by
    refine (Cut.placed_scan callee 0 none source).pairwise.imp fun {c d} h => ?_
    have := c.start_lt_stop
    omega

/-- For a name made of identifier characters the scan finds what a look at every position finds. -/
theorem findAll_eq_everyPosition {callee : Text} (hne : callee ≠ [])
    (hid : ∀ x ∈ callee, Text.isIdentifierChar x = true) (source : Text) :
    findAll callee source = everyPosition callee [] 0 source ∧
      PlainScan callee source (findAll callee source) :=
  ⟨calls_behind_eq hne hid [] source (Nat.le_refl 0), plainScan_findAll hne hid source⟩

/-- A name that overlaps itself, stands inside an identifier and opens arguments that nothing closes
hides none of the calls behind it. -/
theorem findAll_overlapping_name :
    ("aa".toList ≠ [] ∧ ∀ x ∈ "aa".toList, Text.isIdentifierChar x = true) ∧
      findAll "aa".toList "aaa(1); aa(\naa (aa(2)); aa( aa(3)".toList =
        [⟨12, "aa".toList, " ".toList, "aa(2)".toList⟩, ⟨28, "aa".toList, [], "3".toList⟩] := by
  have hne : "aa".toList ≠ [] := by decide
  have hid : ∀ x ∈ "aa".toList, Text.isIdentifierChar x = true := List.all_eq_true.mp (by decide)
  refine ⟨⟨hne, hid⟩, ?_⟩
  rw [(findAll_eq_everyPosition hne hid _).1]
  decide

end Call
end Sketch
end SketchPreview
