import SketchPreview.Proofs.Sketch.Items
import SketchPreview.Proofs.Text.Trim
import SketchPreview.Sketch.Argument

/-!
The tokens of a list of arguments.

`Nesting.avoids` says that a scan from a state sees no character of a class.  Both loops over
arguments are told by it: the reading of arguments goes through a text in which it sees no delimiter
(`arguments_append`), and splitting cuts at the commas that a scan sees (`split_induction`).  A text
is `Closed` when reading goes through it and ends where it began, which is to say when it is a
sequence of items (`closed_iff_items`).  Every token of closed arguments is closed
(`closed_of_mem_splitFrom`).  What splitting makes of a text is told by `split_eq_iff`: tokens that
show no comma, of which all but the last are whole, and that joined give the text.  There are no
others, and `split_lossless` gathers what follows for splitting, joining and reading.
-/

namespace SketchPreview
namespace Sketch

namespace Nesting

/-! ## What a scan sees -/

/-- Whether no exposed character of a text is of a class. -/
def avoids (p : Char → Bool) (n : Nesting) : Text → Bool
  | [] => true
  | c :: t => !(n.exposes c && p c) && (n.step c).avoids p t

theorem avoids_append (p : Char → Bool) (n : Nesting) (a b : Text) :
    n.avoids p (a ++ b) = (n.avoids p a && (n.run a).avoids p b) := by
  induction a generalizing n with
  | nil => rfl
  | cons c a ih => rw [List.cons_append, avoids, ih, avoids, Bool.and_assoc, run_cons]

theorem eq_of_exposes {n : Nesting} {c : Char} (h : n.exposes c = true) : n = {} := by
  obtain ⟨depth, mode⟩ := n
  cases mode with
  | literal quote => simp [exposes] at h
  | escape quote => simp [exposes] at h
  | code =>
    simp only [exposes, Bool.and_eq_true, beq_iff_eq] at h
    rw [h.1]

/-- The delimiters that end the reading of arguments. -/
def isDelimiter (c : Char) : Bool := c == ')' || isStop c

theorem arguments_append {n : Nesting} {a : Text} (h : n.avoids isDelimiter a = true) (u : Text) :
    n.arguments (a ++ u) = ((n.run a).arguments u).prepend a := by
  induction a generalizing n with
  | nil => rfl
  | cons c a ih =>
    rw [avoids, Bool.and_eq_true, Bool.not_eq_true'] at h
    have hgo : n.halts c = false := h.1
    rw [List.cons_append, arguments_cons hgo, ih h.2]
    rfl

theorem avoids_of_arguments_eq {n : Nesting} {a r : Text}
    (h : n.arguments (a ++ ')' :: r) = .closed a r) :
    n.avoids isDelimiter a = true ∧ n.run a = {} := by
  induction a generalizing n with
  | nil =>
    have hhalts : n.halts ')' = true := by
      rw [← Bool.not_eq_false]
      intro hgo
      rw [List.nil_append, arguments_cons hgo] at h
      cases hs : (n.step ')').arguments r <;> simp [hs, ArgumentSpan.push] at h
    exact ⟨rfl, eq_of_halts hhalts⟩
  | cons c a ih =>
    cases hc : n.halts c with
    | true =>
      obtain rfl := eq_of_halts hc
      have hdelimiter : isDelimiter c = true := by
        rw [halts, Bool.and_eq_true] at hc
        exact hc.2
      rw [isDelimiter, Bool.or_eq_true, beq_iff_eq] at hdelimiter
      rcases hdelimiter with rfl | hs
      · rw [List.cons_append, arguments_cons_paren] at h
        simp at h
      · rw [List.cons_append, arguments_cons_stop hs] at h
        simp at h
    | false =>
      rw [List.cons_append, arguments_cons hc] at h
      have hrest : (n.step c).arguments (a ++ ')' :: r) = .closed a r := by
        cases hs : (n.step c).arguments (a ++ ')' :: r) with
        | closed b s => simpa [hs, ArgumentSpan.push] using h
        | stopped b => simp [hs, ArgumentSpan.push] at h
        | unclosed => simp [hs, ArgumentSpan.push] at h
      obtain ⟨havoids, hrun⟩ := ih hrest
      refine ⟨?_, hrun⟩
      rw [avoids, havoids, Bool.and_true, Bool.not_eq_true']
      exact hc

end Nesting

/-! ## Closed texts -/

/-- Reading goes through a text and ends outside of brackets and literals. -/
structure Closed (t : Text) : Prop where
  avoids : ({} : Nesting).avoids Nesting.isDelimiter t = true
  run : ({} : Nesting).run t = {}

theorem closed_iff_items {t : Text} : Closed t ↔ Items .top t := by
  constructor
  · intro h
    have hspan : argumentSpan (t ++ [')']) = .closed t [] := by
      rw [argumentSpan, Nesting.arguments_append h.avoids, h.run, Nesting.arguments_cons_paren,
        ArgumentSpan.prepend_closed, List.append_nil]
    exact (argumentSpan_eq_closed_iff.mp hspan).2
  · intro h
    have hspan : argumentSpan (t ++ [')']) = .closed t [] :=
      argumentSpan_eq_closed_iff.mpr ⟨rfl, h⟩
    obtain ⟨havoids, hrun⟩ := Nesting.avoids_of_arguments_eq hspan
    exact ⟨havoids, hrun⟩

theorem argumentSpan_of_closed {t : Text} (h : Closed t) (u : Text) :
    argumentSpan (t ++ ')' :: u) = .closed t u :=
  argumentSpan_eq_closed_iff.mpr ⟨rfl, closed_iff_items.mp h⟩

theorem closed_of_argumentSpan {t arguments rest : Text}
    (h : argumentSpan t = .closed arguments rest) : Closed arguments :=
  closed_iff_items.mpr (argumentSpan_eq_closed_iff.mp h).2

theorem Closed.append {a b : Text} (ha : Closed a) (hb : Closed b) : Closed (a ++ b) := by
  refine ⟨?_, ?_⟩
  · rw [Nesting.avoids_append, ha.avoids, ha.run, hb.avoids]
    rfl
  · rw [Nesting.run_append, ha.run, hb.run]

theorem Closed.of_append {a b : Text} (ha : Closed a) (h : Closed (a ++ b)) : Closed b := by
  have havoids := h.avoids
  have hrun := h.run
  rw [Nesting.avoids_append, ha.run, ha.avoids, Bool.true_and] at havoids
  rw [Nesting.run_append, ha.run] at hrun
  exact ⟨havoids, hrun⟩

/-- The characters that a scan of arguments or of tokens minds. -/
def marks : Text := ['"', '\'', '(', '[', '{', ')', ']', '}', ';', ',']

def isInert (c : Char) : Bool := !marks.contains c

theorem isInert_of_class {p : Char → Bool} (hp : marks.all (fun m => !p m) = true) {c : Char}
    (h : p c = true) : isInert c = true := by
  rw [isInert, Bool.not_eq_true', ← Bool.not_eq_true, List.contains_iff_mem]
  intro hc
  have hno := List.all_eq_true.mp hp c hc
  rw [h] at hno
  simp at hno

theorem ne_of_isInert {c m : Char} (h : isInert c = true) (hm : m ∈ marks) : c ≠ m := by
  intro heq
  rw [isInert, Bool.not_eq_true', ← Bool.not_eq_true, List.contains_iff_mem, heq] at h
  exact h hm

theorem step_of_isInert {c : Char} (h : isInert c = true) (d : Nat) :
    Nesting.step ⟨d, .code⟩ c = ⟨d, .code⟩ := by
  have hne : ∀ m ∈ marks, c ≠ m := fun m hm => ne_of_isInert h hm
  simp only [marks, List.mem_cons, List.not_mem_nil, or_false, forall_eq_or_imp,
    forall_eq] at hne
  simp [Nesting.step, hne]

theorem run_of_isInert {t : Text} (h : ∀ c ∈ t, isInert c = true) (d : Nat) :
    Nesting.run ⟨d, .code⟩ t = ⟨d, .code⟩ := by
  induction t with
  | nil => rfl
  | cons c t ih =>
    rw [Nesting.run_cons, step_of_isInert (h c List.mem_cons_self),
      ih fun x hx => h x (List.mem_cons_of_mem c hx)]

theorem avoids_of_isInert {p : Char → Bool} (hp : ∀ c, p c = true → c ∈ marks) {t : Text}
    (h : ∀ c ∈ t, isInert c = true) : ({} : Nesting).avoids p t = true := by
  induction t with
  | nil => rfl
  | cons c t ih =>
    have hc := h c List.mem_cons_self
    have hpc : p c = false := by
      rw [← Bool.not_eq_true]
      intro hpc
      exact ne_of_isInert hc (hp c hpc) rfl
    rw [Nesting.avoids, step_of_isInert hc 0, hpc, Bool.and_false, Bool.not_false, Bool.true_and]
    exact ih fun x hx => h x (List.mem_cons_of_mem c hx)

theorem closed_of_isInert {t : Text} (h : ∀ c ∈ t, isInert c = true) : Closed t := by
  refine ⟨avoids_of_isInert ?_ h, run_of_isInert h 0⟩
  intro c hc
  rw [Nesting.isDelimiter, Bool.or_eq_true, beq_iff_eq, isStop_iff] at hc
  rcases hc with rfl | rfl | rfl | rfl | rfl <;> decide

/-! ## Splitting -/

namespace Argument

def isComma (c : Char) : Bool := c == ','

theorem splitFrom_of_avoids {n : Nesting} {t : Text} (h : n.avoids isComma t = true) :
    splitFrom n t = [t] := by
  induction t generalizing n with
  | nil => rfl
  | cons c t ih =>
    rw [Nesting.avoids, Bool.and_eq_true, Bool.not_eq_true', isComma] at h
    rw [splitFrom, h.1, if_neg Bool.false_ne_true, ih h.2]
    rfl

theorem splitFrom_append_comma {n : Nesting} {a : Text} (h : n.avoids isComma a = true)
    (hrun : n.run a = {}) (b : Text) : splitFrom n (a ++ ',' :: b) = a :: splitFrom {} b := by
  induction a generalizing n with
  | nil =>
    obtain rfl : n = {} := hrun
    rfl
  | cons c a ih =>
    rw [Nesting.avoids, Bool.and_eq_true, Bool.not_eq_true', isComma] at h
    rw [List.cons_append, splitFrom, h.1, if_neg Bool.false_ne_true, ih h.2 hrun]
    rfl

/-- A scan sees no comma in a text, or the text can be cut at the first one that it sees. -/
theorem avoids_or_exists_comma (n : Nesting) (t : Text) : n.avoids isComma t = true ∨
    ∃ a b, t = a ++ ',' :: b ∧ n.avoids isComma a = true ∧ n.run a = {} := by
  induction t generalizing n with
  | nil => exact Or.inl rfl
  | cons c t ih =>
    cases hc : n.exposes c && isComma c with
    | true =>
      rw [Bool.and_eq_true, isComma, beq_iff_eq] at hc
      obtain ⟨hexposes, rfl⟩ := hc
      exact Or.inr ⟨[], t, rfl, rfl, Nesting.eq_of_exposes hexposes⟩
    | false =>
      rcases ih (n.step c) with hrest | ⟨a, b, rfl, ha, hrun⟩
      · left
        rw [Nesting.avoids, hc, hrest]
        rfl
      · right
        refine ⟨c :: a, b, rfl, ?_, hrun⟩
        rw [Nesting.avoids, hc, ha]
        rfl

/-- Induction over the tokens of a text: it is the last token, or it begins with one that a comma
ends. -/
theorem split_induction {motive : Text → List Text → Prop}
    (last : ∀ t, ({} : Nesting).avoids isComma t = true → motive t [t])
    (cut : ∀ a b, ({} : Nesting).avoids isComma a = true → ({} : Nesting).run a = {} →
      motive b (splitFrom {} b) → motive (a ++ ',' :: b) (a :: splitFrom {} b))
    (t : Text) : motive t (splitFrom {} t) := by
  induction hn : t.length using Nat.strongRecOn generalizing t with
  | ind n ih =>
    subst hn
    rcases avoids_or_exists_comma {} t with h | ⟨a, b, rfl, ha, hrun⟩
    · rw [splitFrom_of_avoids h]
      exact last t h
    · rw [splitFrom_append_comma ha hrun]
      refine cut a b ha hrun (ih b.length ?_ b rfl)
      rw [List.length_append, List.length_cons]
      omega

/-- A scan goes through a token, sees no comma in it and ends outside of brackets and literals. -/
structure Whole (token : Text) : Prop where
  avoids : ({} : Nesting).avoids isComma token = true
  run : ({} : Nesting).run token = {}

instance (token : Text) : Decidable (Whole token) :=
  decidable_of_iff (({} : Nesting).avoids isComma token = true ∧ ({} : Nesting).run token = {})
    ⟨fun h => ⟨h.1, h.2⟩, fun h => ⟨h.avoids, h.run⟩⟩

/-- What splitting makes of a text: a scan sees no comma in any of the tokens, and all but the last
end outside of brackets and literals, where the comma behind them is seen. -/
structure Separated (tokens : List Text) : Prop where
  avoids : ∀ token ∈ tokens, ({} : Nesting).avoids isComma token = true
  run : ∀ token ∈ tokens.dropLast, ({} : Nesting).run token = {}

theorem separated_of_whole {tokens : List Text} (h : ∀ token ∈ tokens, Whole token) :
    Separated tokens where
  avoids := fun token ht => (h token ht).avoids
  run := fun token ht => (h token (List.dropLast_subset tokens ht)).run

theorem Separated.whole {tokens : List Text} (h : Separated tokens) {token : Text}
    (ht : token ∈ tokens.dropLast) : Whole token :=
  ⟨h.avoids token (List.dropLast_subset tokens ht), h.run token ht⟩

theorem separated_singleton {token : Text} (h : ({} : Nesting).avoids isComma token = true) :
    Separated [token] where
  avoids := by
    intro other ht
    rwa [List.mem_singleton.mp ht]
  run := by simp

theorem separated_cons_iff {token : Text} {tokens : List Text} (hne : tokens ≠ []) :
    Separated (token :: tokens) ↔ Whole token ∧ Separated tokens := by
  constructor
  · intro h
    refine ⟨h.whole ?_, fun t ht => h.avoids t (List.mem_cons_of_mem token ht), fun t ht => h.run t ?_⟩
    · rw [List.dropLast_cons_of_ne_nil hne]
      exact List.mem_cons_self
    · rw [List.dropLast_cons_of_ne_nil hne]
      exact List.mem_cons_of_mem token ht
  · rintro ⟨hwhole, h⟩
    refine ⟨List.forall_mem_cons.mpr ⟨hwhole.avoids, h.avoids⟩, ?_⟩
    rw [List.dropLast_cons_of_ne_nil hne]
    exact List.forall_mem_cons.mpr ⟨hwhole.run, h.run⟩

theorem separated_splitFrom (t : Text) : Separated (splitFrom {} t) := by
  refine split_induction (motive := fun _ tokens => Separated tokens) ?_ ?_ t
  · intro t havoids
    exact separated_singleton havoids
  · intro a b ha hrun ih
    exact (separated_cons_iff (splitFrom_ne_nil {} b)).mpr ⟨⟨ha, hrun⟩, ih⟩

theorem splitFrom_intercalate {tokens : List Text} (hne : tokens ≠ []) (h : Separated tokens) :
    splitFrom {} ([','].intercalate tokens) = tokens := by
  induction tokens with
  | nil => exact absurd rfl hne
  | cons token tokens ih =>
    cases tokens with
    | nil =>
      rw [List.intercalate_singleton]
      exact splitFrom_of_avoids (h.avoids token List.mem_cons_self)
    | cons next tokens =>
      obtain ⟨hwhole, hrest⟩ := (separated_cons_iff (List.cons_ne_nil next tokens)).mp h
      rw [List.intercalate_cons_cons, List.append_assoc, List.singleton_append,
        splitFrom_append_comma hwhole.avoids hwhole.run, ih (List.cons_ne_nil next tokens) hrest]

/-- The tokens of a text are the only ones that are separated and joined give the text. -/
theorem splitFrom_eq_iff {t : Text} {tokens : List Text} : splitFrom {} t = tokens ↔
    tokens ≠ [] ∧ [','].intercalate tokens = t ∧ Separated tokens := by
  constructor
  · rintro rfl
    exact ⟨splitFrom_ne_nil {} t, intercalate_splitFrom {} t, separated_splitFrom t⟩
  · rintro ⟨hne, rfl, h⟩
    exact splitFrom_intercalate hne h

/-- As `splitFrom_eq_iff`, where no text has no tokens and not one empty token. -/
theorem split_eq_iff {t : Text} {tokens : List Text} : split t = tokens ↔
    tokens ≠ [[]] ∧ [','].intercalate tokens = t ∧ Separated tokens := by
  cases t with
  | nil =>
    constructor
    · rintro rfl
      exact ⟨by decide, rfl, by simp [split], by simp [split]⟩
    · rintro ⟨hempty, hjoin, h⟩
      by_cases hne : tokens = []
      · rw [hne]
        rfl
      · exact absurd (splitFrom_eq_iff.mpr ⟨hne, hjoin, h⟩).symm hempty
  | cons c t =>
    rw [split, if_neg (by simp), splitFrom_eq_iff]
    refine and_congr_left ?_
    rintro ⟨hjoin, -⟩
    constructor
    · rintro - rfl
      simp at hjoin
    · rintro - rfl
      simp at hjoin

/-- Splitting undoes joining, but for one empty token: joined it is no text, and no text has no
tokens. -/
theorem split_intercalate {tokens : List Text} (hne : tokens ≠ [[]])
    (h : ∀ token ∈ tokens, Whole token) : split ([','].intercalate tokens) = tokens :=
  split_eq_iff.mpr ⟨hne, rfl, separated_of_whole h⟩

theorem separated_split (t : Text) : Separated (split t) := (split_eq_iff.mp rfl).2.2

/-- A token is the only one of its own text. -/
theorem split_of_mem_split {t token : Text} (h : token ∈ split t) (hne : token ≠ []) :
    split token = [token] := by
  refine split_eq_iff.mpr ⟨?_, List.intercalate_singleton, ?_⟩
  · simpa using hne
  · exact separated_singleton ((separated_split t).avoids token h)

theorem closed_comma : Closed [','] := ⟨rfl, rfl⟩

/-- Every token of closed arguments is closed and shows no comma. -/
theorem closed_of_mem_splitFrom {t token : Text} (ht : Closed t) (h : token ∈ splitFrom {} t) :
    Closed token ∧ ({} : Nesting).avoids isComma token = true := by
  refine ⟨?_, (separated_splitFrom t).avoids token h⟩
  revert ht h
  refine split_induction (motive := fun t tokens => Closed t → token ∈ tokens → Closed token)
    ?_ ?_ t
  · intro t _ ht h
    rwa [List.mem_singleton.mp h]
  · intro a b _ hrun ih ht h
    have hclosed : Closed a := by
      refine ⟨?_, hrun⟩
      have havoids := ht.avoids
      rw [Nesting.avoids_append, Bool.and_eq_true] at havoids
      exact havoids.1
    rcases List.mem_cons.mp h with rfl | h
    · exact hclosed
    · exact ih (closed_comma.of_append (hclosed.of_append ht)) h

theorem mem_splitFrom_of_mem_split {t token : Text} (h : token ∈ split t) :
    token ∈ splitFrom {} t := by
  rw [split] at h
  split at h
  · simp at h
  · exact h

/-- Splitting loses nothing and cuts only where what is in front is whole.  Tokens that are whole come
out of a list as they were joined in it, and a token of arguments that were read up to their
parenthesis is read up to a parenthesis of its own, whatever follows. -/
theorem split_lossless :
    (∀ t, [','].intercalate (split t) = t ∧
      (∀ token ∈ split t, token ≠ [] → split token = [token]) ∧
      ∀ token ∈ (split t).dropLast, Whole token) ∧
    (∀ tokens, tokens ≠ [[]] → (∀ token ∈ tokens, Whole token) →
      split ([','].intercalate tokens) = tokens) ∧
    ∀ t arguments rest, argumentSpan t = .closed arguments rest →
      ∀ token ∈ split arguments, ∀ u, argumentSpan (token ++ ')' :: u) = .closed token u := by
  refine ⟨?_, fun tokens => split_intercalate, ?_⟩
  · intro t
    exact ⟨intercalate_split t, fun token => split_of_mem_split,
      fun token => (separated_split t).whole⟩
  · intro t arguments rest hspan token htoken u
    have hclosed := closed_of_argumentSpan hspan
    exact argumentSpan_of_closed
      (closed_of_mem_splitFrom hclosed (mem_splitFrom_of_mem_split htoken)).1 u

/-- Commas in brackets and in a literal, and a token of nothing. -/
theorem split_lossless_nested :
    let arguments := "pick(1, 2),, \"a,b)\"".toList
    let tokens := ["pick(1, 2)".toList, [], " \"a,b)\"".toList]
    let last := " \"a,b)\"".toList
    tokens ≠ [[]] ∧ (∀ token ∈ tokens, Whole token) ∧ split arguments = tokens ∧
      argumentSpan (arguments ++ ") x".toList) = .closed arguments " x".toList ∧
      last ∈ split arguments ∧ last ≠ [] ∧ split last = [last] ∧
      ∀ u, argumentSpan (last ++ ')' :: u) = .closed last u := by
  intro arguments tokens last
  obtain ⟨hcut, hjoined, hread⟩ := split_lossless
  have hempty : tokens ≠ [[]] := by decide
  have hwhole : ∀ token ∈ tokens, Whole token := by decide
  have hspan : argumentSpan (arguments ++ ") x".toList) = .closed arguments " x".toList := by decide
  have hlast : last ∈ split arguments := by decide
  have hne : last ≠ [] := by decide
  exact ⟨hempty, hwhole, hjoined tokens hempty hwhole, hspan, hlast, hne,
    (hcut arguments).2.1 last hlast hne, hread _ arguments " x".toList hspan last hlast⟩

/-- A token stands in the arguments behind their beginning or a comma. -/
theorem exists_append_of_mem_splitFrom {t token : Text} (h : token ∈ splitFrom {} t) :
    ∃ before after, t = before ++ token ++ after ∧
      (before = [] ∨ before.getLast? = some ',') := by
  revert h
  refine split_induction
    (motive := fun t tokens => token ∈ tokens → ∃ before after, t = before ++ token ++ after ∧
      (before = [] ∨ before.getLast? = some ',')) ?_ ?_ t
  · intro t _ h
    rw [List.mem_singleton.mp h]
    exact ⟨[], [], by simp, Or.inl rfl⟩
  · intro a b _ _ ih h
    rcases List.mem_cons.mp h with rfl | h
    · exact ⟨[], ',' :: b, rfl, Or.inl rfl⟩
    · obtain ⟨before, after, rfl, hbefore⟩ := ih h
      refine ⟨a ++ ',' :: before, after, by simp, Or.inr ?_⟩
      rcases hbefore with rfl | hlast
      · simp
      · rw [List.getLast?_append, List.getLast?_cons, hlast]
        rfl

end Argument
end Sketch
end SketchPreview
