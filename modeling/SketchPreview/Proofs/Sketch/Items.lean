import SketchPreview.Sketch.ArgumentSpan

/-!
The grammar of argument lists.

`Items` gives the language: a list of arguments is a sequence of plain characters, literals and
groups in brackets, and a group holds such a sequence again.  The reading of arguments accepts
exactly this language in front of a closing parenthesis (`argumentSpan_eq_closed_iff`), and stops
exactly where a text of it stands in front of another delimiter (`argumentSpan_eq_stopped_iff`).

The reader is a machine that has no words for items: it holds a depth and a mode, and closes later
what it has opened.  `arguments_items` runs it over a sequence of items, one item at a time.  For
the way back `Completes` says what the text ahead must be for what is open in a state to be closed,
and one step of the machine preserves it (`completes_cons`).
-/

namespace SketchPreview
namespace Sketch

/-! ## The language -/

def isQuote (c : Char) : Bool := c == '"' || c == '\''

def isOpening (c : Char) : Bool := c == '(' || c == '[' || c == '{'

def isClosing (c : Char) : Bool := c == ')' || c == ']' || c == '}'

/-- Where an item stands: in the list of arguments itself, or inside a group. -/
inductive Level where
  | top
  | nested
deriving DecidableEq

namespace Level

/-- The characters that stand for themselves.  A semicolon does only inside a group. -/
def plain : Level → Char → Bool
  | .top, c => !(isQuote c || isOpening c || isClosing c || c == ';')
  | .nested, c => !(isQuote c || isOpening c || isClosing c)

/-- The brackets that open a group.  A brace does only inside another group. -/
def opens : Level → Char → Bool
  | .top, c => c == '(' || c == '['
  | .nested, c => isOpening c

def ofDepth : Nat → Level
  | 0 => .top
  | _ + 1 => .nested

end Level

/-- The text inside a literal: a backslash takes the character behind it along, whatever that is,
and any other character is neither the quote nor the end of the line. -/
inductive Quoted (quote : Char) : Text → Prop
  | nil : Quoted quote []
  | escaped {c : Char} {t : Text} : Quoted quote t → Quoted quote ('\\' :: c :: t)
  | plain {c : Char} {t : Text} : c ≠ '\\' → c ≠ quote → c ≠ '\n' → Quoted quote t →
      Quoted quote (c :: t)

/-- Sequences of items; each constructor puts one item in front.  A literal ends with its quote or
with the line, and any closing bracket ends any group. -/
inductive Items : Level → Text → Prop
  | nil {level : Level} : Items level []
  | plain {level : Level} {c : Char} {t : Text} : level.plain c = true → Items level t →
      Items level (c :: t)
  | literal {level : Level} {quote close : Char} {body t : Text} : isQuote quote = true →
      Quoted quote body → close = quote ∨ close = '\n' → Items level t →
      Items level (quote :: body ++ close :: t)
  | group {level : Level} {bracket close : Char} {body t : Text} : level.opens bracket = true →
      Items .nested body → isClosing close = true → Items level t →
      Items level (bracket :: body ++ close :: t)

theorem Items.append {level : Level} {a b : Text} (ha : Items level a) (hb : Items level b) :
    Items level (a ++ b) := by
  induction ha with
  | nil => exact hb
  | plain hc _ ih => exact .plain hc (ih hb)
  | literal hq hbody hclose _ ih =>
    rw [List.append_assoc]
    exact .literal hq hbody hclose (ih hb)
  | group ho hbody hclose _ _ ih =>
    rw [List.append_assoc]
    exact .group ho hbody hclose (ih hb)

/-! ## One step of the machine -/

theorem isStop_iff {c : Char} : isStop c = true ↔ c = ';' ∨ c = '{' ∨ c = '}' ∨ c = ']' := by
  simp [isStop, or_assoc]

namespace ArgumentSpan

def prepend (t : Text) (s : ArgumentSpan) : ArgumentSpan := t.foldr push s

@[simp] theorem prepend_nil (s : ArgumentSpan) : s.prepend [] = s := rfl

@[simp] theorem prepend_cons (c : Char) (t : Text) (s : ArgumentSpan) :
    s.prepend (c :: t) = (s.prepend t).push c := rfl

@[simp] theorem prepend_append (a b : Text) (s : ArgumentSpan) :
    s.prepend (a ++ b) = (s.prepend b).prepend a := List.foldr_append

@[simp] theorem prepend_closed (t arguments rest : Text) :
    (closed arguments rest).prepend t = closed (t ++ arguments) rest := by
  induction t with
  | nil => rfl
  | cons c t ih => rw [prepend_cons, ih, push, List.cons_append]

@[simp] theorem prepend_stopped (t arguments : Text) :
    (stopped arguments).prepend t = stopped (t ++ arguments) := by
  induction t with
  | nil => rfl
  | cons c t ih => rw [prepend_cons, ih, push, List.cons_append]

/-- The text in front of the delimiter that ended the reading. -/
def front? : ArgumentSpan → Option Text
  | .closed arguments _ => some arguments
  | .stopped arguments => some arguments
  | .unclosed => none

theorem front?_push (c : Char) (s : ArgumentSpan) :
    (s.push c).front? = s.front?.map (c :: ·) := by
  cases s <;> rfl

end ArgumentSpan

namespace Nesting

def halts (n : Nesting) (c : Char) : Bool := n.exposes c && (c == ')' || isStop c)

theorem arguments_cons {n : Nesting} {c : Char} (h : n.halts c = false) (t : Text) :
    n.arguments (c :: t) = ((n.step c).arguments t).push c := by
  rw [halts, Bool.and_or_distrib_left, Bool.or_eq_false_iff] at h
  rw [arguments, if_neg (by simp [h.1]), if_neg (by simp [h.2])]

theorem arguments_cons_paren (t : Text) :
    ({} : Nesting).arguments (')' :: t) = .closed [] t := rfl

theorem arguments_cons_stop {c : Char} (h : isStop c = true) (t : Text) :
    ({} : Nesting).arguments (c :: t) = .stopped [] := by
  rcases isStop_iff.mp h with rfl | rfl | rfl | rfl <;> rfl

theorem eq_of_halts {n : Nesting} {c : Char} (h : n.halts c = true) : n = {} := by
  obtain ⟨depth, mode⟩ := n
  cases mode with
  | literal quote => simp [halts, exposes] at h
  | escape quote => simp [halts, exposes] at h
  | code =>
    have hd : depth = 0 := by
      simp only [halts, exposes, Bool.and_eq_true, beq_iff_eq] at h
      exact h.1.1
    rw [hd]

section Code

variable {d : Nat} {c : Char}

theorem step_plain (h : (Level.ofDepth d).plain c = true) :
    halts ⟨d, .code⟩ c = false ∧ step ⟨d, .code⟩ c = ⟨d, .code⟩ := by
  cases d <;>
    simp_all [Level.ofDepth, Level.plain, halts, exposes, step, isQuote, isOpening, isClosing,
      isStop]

theorem step_quote (h : isQuote c = true) :
    halts ⟨d, .code⟩ c = false ∧ step ⟨d, .code⟩ c = ⟨d, .literal c⟩ := by
  simp only [isQuote, Bool.or_eq_true, beq_iff_eq] at h
  rcases h with rfl | rfl <;> simp [halts, exposes, step]

theorem step_opens (h : (Level.ofDepth d).opens c = true) :
    halts ⟨d, .code⟩ c = false ∧ step ⟨d, .code⟩ c = ⟨d + 1, .code⟩ := by
  cases d with
  | zero =>
    simp only [Level.ofDepth, Level.opens, Bool.or_eq_true, beq_iff_eq] at h
    rcases h with rfl | rfl <;> decide
  | succ d =>
    simp only [Level.ofDepth, Level.opens, isOpening, Bool.or_eq_true, beq_iff_eq] at h
    rcases h with (rfl | rfl) | rfl <;> simp [halts, exposes, step]

theorem step_closing (h : isClosing c = true) :
    halts ⟨d + 1, .code⟩ c = false ∧ step ⟨d + 1, .code⟩ c = ⟨d, .code⟩ := by
  simp only [isClosing, Bool.or_eq_true, beq_iff_eq] at h
  rcases h with (rfl | rfl) | rfl <;> simp [halts, exposes, step]

theorem halts_of_isClosing (h : isClosing c = true) : halts ⟨0, .code⟩ c = true := by
  simp only [isClosing, Bool.or_eq_true, beq_iff_eq] at h
  rcases h with (rfl | rfl) | rfl <;> rfl

theorem halts_of_isStop (h : isStop c = true) : halts ⟨0, .code⟩ c = true := by
  rcases isStop_iff.mp h with rfl | rfl | rfl | rfl <;> rfl

/-- What a character in code is to the machine, if the reading does not end there. -/
theorem code_cases (h : halts ⟨d, .code⟩ c = false) :
    isQuote c = true ∨ (Level.ofDepth d).opens c = true ∨ (Level.ofDepth d).plain c = true ∨
      (isClosing c = true ∧ ∃ e, d = e + 1) := by
  by_cases hq : isQuote c = true
  · exact Or.inl hq
  by_cases ho : (Level.ofDepth d).opens c = true
  · exact Or.inr (Or.inl ho)
  rw [Bool.not_eq_true] at hq ho
  cases d with
  | zero =>
    have hclosing : isClosing c = false := by
      rw [Bool.eq_false_iff]
      intro hc
      rw [halts_of_isClosing hc] at h
      simp at h
    have hstop : ¬ (c = ';' ∨ c = '{' ∨ c = '}' ∨ c = ']') := by
      intro hs
      rw [halts_of_isStop (isStop_iff.mpr hs)] at h
      simp at h
    rw [not_or, not_or] at hstop
    have hopening : isOpening c = false := by
      rw [isOpening, Bool.or_eq_false_iff]
      exact ⟨ho, beq_false_of_ne hstop.2.1⟩
    right; right; left
    simp [Level.ofDepth, Level.plain, hq, hopening, hclosing, hstop.1]
  | succ d =>
    by_cases hc : isClosing c = true
    · exact Or.inr (Or.inr (Or.inr ⟨hc, d, rfl⟩))
    · rw [Bool.not_eq_true] at hc
      simp only [Level.ofDepth, Level.opens] at ho
      right; right; left
      simp [Level.ofDepth, Level.plain, hq, ho, hc]

end Code

/-! ## Reading a sequence of items -/

/-- A literal is read to its end, whatever brackets stand in it. -/
theorem arguments_quoted {d : Nat} {quote close : Char} {body : Text} (hq : isQuote quote = true)
    (hbody : Quoted quote body) (hclose : close = quote ∨ close = '\n') (t : Text) :
    arguments ⟨d, .literal quote⟩ (body ++ close :: t) =
      (arguments ⟨d, .code⟩ t).prepend (body ++ [close]) := by
  induction hbody with
  | nil =>
    have hne : close ≠ '\\' := by
      intro heq
      subst heq
      rcases hclose with rfl | h
      · simp [isQuote] at hq
      · simp at h
    have hstep : step ⟨d, .literal quote⟩ close = ⟨d, .code⟩ := by
      simp [step, hne, hclose]
    rw [List.nil_append, List.nil_append, arguments_cons rfl, hstep]
    rfl
  | @escaped c body _ ih =>
    have hstep : step ⟨d, .literal quote⟩ '\\' = ⟨d, .escape quote⟩ := by
      simp [step]
    rw [List.cons_append, List.cons_append, arguments_cons rfl, hstep, arguments_cons rfl]
    show ((arguments ⟨d, .literal quote⟩ (body ++ close :: t)).push c).push '\\' = _
    rw [ih]
    rfl
  | @plain c body h1 h2 h3 _ ih =>
    have hstep : step ⟨d, .literal quote⟩ c = ⟨d, .literal quote⟩ := by
      simp [step, h1, h2, h3]
    rw [List.cons_append, arguments_cons rfl, hstep, ih]
    rfl

/-- A sequence of items is read through, at every depth at which it may stand. -/
theorem arguments_items {level : Level} {t : Text} (h : Items level t) {d : Nat}
    (hd : Level.ofDepth d = level) (u : Text) :
    arguments ⟨d, .code⟩ (t ++ u) = (arguments ⟨d, .code⟩ u).prepend t := by
  induction h generalizing d u with
  | nil => rfl
  | plain hc _ ih =>
    subst hd
    obtain ⟨hgo, hstep⟩ := step_plain hc
    rw [List.cons_append, arguments_cons hgo, hstep, ih rfl]
    rfl
  | literal hq hbody hclose _ ih =>
    obtain ⟨hgo, hstep⟩ := step_quote (d := d) hq
    rw [List.append_assoc, List.cons_append, List.cons_append, arguments_cons hgo, hstep,
      arguments_quoted hq hbody hclose, ih hd]
    simp
  | group ho _ hclose _ ihbody ih =>
    subst hd
    obtain ⟨hgo, hstep⟩ := step_opens ho
    obtain ⟨hgo', hstep'⟩ := step_closing (d := d) hclose
    rw [List.append_assoc, List.cons_append, List.cons_append, arguments_cons hgo, hstep,
      ihbody rfl, arguments_cons hgo', hstep', ih rfl]
    simp

/-! ## What is ahead in a state -/

/-- Text that ends `d` groups and goes on to the end of the arguments. -/
def Closes : Nat → Text → Prop
  | 0, t => Items .top t
  | d + 1, t => ∃ body close rest, t = body ++ close :: rest ∧ Items .nested body ∧
      isClosing close = true ∧ Closes d rest

def Finishes (d : Nat) (quote : Char) (t : Text) : Prop :=
  ∃ body close rest, t = body ++ close :: rest ∧ Quoted quote body ∧
    (close = quote ∨ close = '\n') ∧ Closes d rest

/-- Text that ends all that is open in a state and goes on to the end of the arguments. -/
def Completes (n : Nesting) (t : Text) : Prop :=
  match n.mode with
  | .code => Closes n.depth t
  | .literal quote => Finishes n.depth quote t
  | .escape quote => ∃ c rest, t = c :: rest ∧ Finishes n.depth quote rest

theorem closes_append {d : Nat} {a t : Text} (ha : Items (Level.ofDepth d) a) (ht : Closes d t) :
    Closes d (a ++ t) := by
  cases d with
  | zero => exact ha.append ht
  | succ d =>
    obtain ⟨body, close, rest, rfl, hbody, hclose, hrest⟩ := ht
    exact ⟨a ++ body, close, rest, (List.append_assoc _ _ _).symm, ha.append hbody, hclose, hrest⟩

/-- Whatever completes the state behind a character completes, with the character in front, the
state before it. -/
theorem completes_cons {n : Nesting} {c : Char} {t : Text} (hgo : n.halts c = false)
    (h : Completes (n.step c) t) : Completes n (c :: t) := by
  obtain ⟨d, mode⟩ := n
  cases mode with
  | escape quote => exact ⟨c, t, rfl, h⟩
  | literal quote =>
    by_cases hb : c = '\\'
    · subst hb
      obtain ⟨x, rest, rfl, body, close, rest, rfl, hbody, hclose, hrest⟩ := h
      exact ⟨'\\' :: x :: body, close, rest, rfl, .escaped hbody, hclose, hrest⟩
    · by_cases hc : c = quote ∨ c = '\n'
      · have hstep : step ⟨d, .literal quote⟩ c = ⟨d, .code⟩ := by
          simp [step, hb, hc]
        rw [hstep] at h
        exact ⟨[], c, t, rfl, .nil, hc, h⟩
      · have hstep : step ⟨d, .literal quote⟩ c = ⟨d, .literal quote⟩ := by
          simp [step, hb, hc]
        rw [hstep] at h
        rw [not_or] at hc
        obtain ⟨body, close, rest, rfl, hbody, hclose, hrest⟩ := h
        exact ⟨c :: body, close, rest, rfl, .plain hb hc.1 hc.2 hbody, hclose, hrest⟩
  | code =>
    rcases code_cases hgo with hq | ho | hp | ⟨hclose, d, rfl⟩
    · rw [(step_quote hq).2] at h
      obtain ⟨body, close, rest, rfl, hbody, hclose, hrest⟩ := h
      have hitem : Items (Level.ofDepth d) (c :: body ++ close :: []) :=
        .literal hq hbody hclose .nil
      show Closes d _
      simpa using closes_append hitem hrest
    · rw [(step_opens ho).2] at h
      obtain ⟨body, close, rest, rfl, hbody, hclose, hrest⟩ := h
      have hitem : Items (Level.ofDepth d) (c :: body ++ close :: []) :=
        .group ho hbody hclose .nil
      show Closes d _
      simpa using closes_append hitem hrest
    · rw [(step_plain hp).2] at h
      exact closes_append (a := [c]) (.plain hp .nil) h
    · rw [(step_closing hclose).2] at h
      exact ⟨[], c, t, rfl, .nil, hclose, h⟩

/-- The text in front of the delimiter that ends the reading completes the state it was read from.
-/
theorem completes_of_front? {n : Nesting} {t a : Text} (h : (n.arguments t).front? = some a) :
    Completes n a := by
  induction t generalizing n a with
  | nil => simp [arguments, ArgumentSpan.front?] at h
  | cons c t ih =>
    cases hc : n.halts c with
    | true =>
      obtain rfl := eq_of_halts hc
      have ha : a = [] := by
        simp only [halts, Bool.and_eq_true, Bool.or_eq_true, beq_iff_eq] at hc
        rcases hc.2 with rfl | hs
        · rw [arguments_cons_paren] at h
          simpa [ArgumentSpan.front?] using h.symm
        · rw [arguments_cons_stop hs] at h
          simpa [ArgumentSpan.front?] using h.symm
      rw [ha]
      exact Items.nil
    | false =>
      rw [arguments_cons hc, ArgumentSpan.front?_push] at h
      obtain ⟨b, hb, rfl⟩ := Option.map_eq_some_iff.mp h
      exact completes_cons hc (ih hb)

theorem eq_of_arguments_stopped {n : Nesting} {t a : Text} (h : n.arguments t = .stopped a) :
    ∃ c rest, t = a ++ c :: rest ∧ isStop c = true := by
  induction t generalizing n a with
  | nil => simp [arguments] at h
  | cons c t ih =>
    rw [arguments] at h
    split at h
    · simp at h
    · split at h
      · rename_i hs
        obtain rfl : [] = a := by simpa using h
        simp only [Bool.and_eq_true] at hs
        exact ⟨c, t, rfl, hs.2⟩
      · cases ht : (n.step c).arguments t with
        | closed b r => simp [ht, ArgumentSpan.push] at h
        | unclosed => simp [ht, ArgumentSpan.push] at h
        | stopped b =>
          rw [ht] at h
          obtain rfl : c :: b = a := by simpa [ArgumentSpan.push] using h
          obtain ⟨x, rest, rfl, hx⟩ := ih ht
          exact ⟨x, rest, rfl, hx⟩

end Nesting

/-! ## The language is what is read -/

theorem argumentSpan_items_append {a : Text} (h : Items .top a) (u : Text) :
    argumentSpan (a ++ u) = (argumentSpan u).prepend a :=
  Nesting.arguments_items h (d := 0) rfl u

theorem argumentSpan_eq_closed_iff {t arguments rest : Text} :
    argumentSpan t = .closed arguments rest ↔
      t = arguments ++ ')' :: rest ∧ Items .top arguments := by
  constructor
  · intro h
    refine ⟨eq_of_argumentSpan h, Nesting.completes_of_front? (n := {}) (t := t) ?_⟩
    rw [argumentSpan] at h
    rw [h, ArgumentSpan.front?]
  · intro h
    obtain ⟨rfl, hitems⟩ := h
    rw [argumentSpan_items_append hitems, argumentSpan, Nesting.arguments_cons_paren]
    simp

theorem argumentSpan_eq_stopped_iff {t a : Text} :
    argumentSpan t = .stopped a ↔
      ∃ c rest, t = a ++ c :: rest ∧ Items .top a ∧ isStop c = true := by
  constructor
  · intro h
    obtain ⟨c, rest, ht, hc⟩ := Nesting.eq_of_arguments_stopped h
    refine ⟨c, rest, ht, Nesting.completes_of_front? (n := {}) (t := t) ?_, hc⟩
    rw [argumentSpan] at h
    rw [h, ArgumentSpan.front?]
  · intro h
    obtain ⟨c, rest, rfl, hitems, hc⟩ := h
    rw [argumentSpan_items_append hitems, argumentSpan, Nesting.arguments_cons_stop hc]
    simp

theorem failure?_of_stopped {t a : Text} (h : argumentSpan t = .stopped a) :
    (argumentSpan t).failure? = some (Text.byteSize a) := by
  rw [h, ArgumentSpan.failure?]

/-- Arguments are read exactly if they are items in front of a closing parenthesis, and then in one
way only.  Items in front of a delimiter are refused at the place of the delimiter, and any other
text has run out.  What was decided by a delimiter stays decided whatever is appended. -/
theorem argumentSpan_grammar (t : Text) :
    (∀ arguments rest, argumentSpan t = .closed arguments rest ↔
      t = arguments ++ ')' :: rest ∧ Items .top arguments) ∧
    (∀ a r b s, t = a ++ ')' :: r → Items .top a → t = b ++ ')' :: s → Items .top b →
      a = b ∧ r = s) ∧
    (∀ a c rest, t = a ++ c :: rest → Items .top a → (c = ';' ∨ c = '{' ∨ c = '}' ∨ c = ']') →
      argumentSpan t = .stopped a ∧ (argumentSpan t).failure? = some (Text.byteSize a)) ∧
    ((∀ a c rest, t = a ++ c :: rest → Items .top a →
        ¬ (c = ')' ∨ c = ';' ∨ c = '{' ∨ c = '}' ∨ c = ']')) →
      argumentSpan t = .unclosed ∧ (argumentSpan t).failure? = some 0) ∧
    (∀ u, (∀ arguments rest, argumentSpan t = .closed arguments rest →
        argumentSpan (t ++ u) = .closed arguments (rest ++ u)) ∧
      ∀ a, argumentSpan t = .stopped a → argumentSpan (t ++ u) = .stopped a) := by
  refine ⟨fun arguments rest => argumentSpan_eq_closed_iff, ?_, ?_, ?_, fun u => ⟨?_, ?_⟩⟩
  · intro a r b s ha hia hb hib
    have h := argumentSpan_eq_closed_iff.mpr ⟨ha, hia⟩
    rw [argumentSpan_eq_closed_iff.mpr ⟨hb, hib⟩] at h
    simp only [ArgumentSpan.closed.injEq] at h
    exact ⟨h.1.symm, h.2.symm⟩
  · intro a c rest ht hia hc
    have h := argumentSpan_eq_stopped_iff.mpr ⟨c, rest, ht, hia, isStop_iff.mpr hc⟩
    exact ⟨h, failure?_of_stopped h⟩
  · intro hnone
    cases h : argumentSpan t with
    | unclosed => exact ⟨rfl, rfl⟩
    | closed a rest =>
      obtain ⟨ht, hia⟩ := argumentSpan_eq_closed_iff.mp h
      exact absurd (Or.inl rfl) (hnone a ')' rest ht hia)
    | stopped a =>
      obtain ⟨c, rest, ht, hia, hc⟩ := argumentSpan_eq_stopped_iff.mp h
      exact absurd (Or.inr (isStop_iff.mp hc)) (hnone a c rest ht hia)
  · intro arguments rest h
    obtain ⟨rfl, hia⟩ := argumentSpan_eq_closed_iff.mp h
    exact argumentSpan_eq_closed_iff.mpr ⟨by simp, hia⟩
  · intro a h
    obtain ⟨c, rest, rfl, hia, hc⟩ := argumentSpan_eq_stopped_iff.mp h
    exact argumentSpan_eq_stopped_iff.mpr ⟨c, rest ++ u, by simp, hia, hc⟩

end Sketch
end SketchPreview
