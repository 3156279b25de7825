import Mathlib.Data.List.Induction
import SketchPreview.Proofs.Sketch.Tokens

/-!
Literals and the ends of lines.

A line feed ends the literal it stands in, so that a stray quote says nothing about the next line.
The exception is a backslash in front of it: inside a literal it takes the line feed along, and the
literal goes on.  `EscapesNext` describes the texts behind which that happens (`escapesNext_iff`),
and `run_line_feed` says that behind any other the scan, the reading of arguments and the splitting
of tokens go on from the depth of the brackets alone.
-/

namespace SketchPreview
namespace Sketch

/-! ## Open literals -/

theorem Quoted.append {quote : Char} {a b : Text} (ha : Quoted quote a) (hb : Quoted quote b) :
    Quoted quote (a ++ b) := by
  induction ha with
  | nil => exact hb
  | escaped _ ih => exact .escaped ih
  | plain hbackslash hquote hfeed _ ih => exact .plain hbackslash hquote hfeed ih

namespace Nesting

/-- A text ends inside a literal: behind `front` comes its quote, and then `body`. -/
def Opens (quote : Char) (body s : Text) : Prop :=
  ∃ front, s = front ++ quote :: body ∧ (({} : Nesting).run front).mode = .code ∧
    isQuote quote = true ∧ Quoted quote body

/-- A text ends with a backslash that takes the next character along, inside a literal. -/
def EscapesNext (s : Text) : Prop :=
  ∃ quote body front, s = front ++ ['\\'] ∧ Opens quote body front

theorem run_snoc (n : Nesting) (s : Text) (c : Char) : n.run (s ++ [c]) = (n.run s).step c :=
  n.run_append s [c]

/-- What the mode behind a text says about the text. -/
def Explains (s : Text) : Mode → Prop
  | .code => True
  | .literal quote => ∃ body, Opens quote body s
  | .escape quote => ∃ body front, s = front ++ ['\\'] ∧ Opens quote body front

theorem Opens.snoc {quote c : Char} {body s : Text} (h : Opens quote body s)
    (hbackslash : c ≠ '\\') (hquote : c ≠ quote) (hfeed : c ≠ '\n') :
    Opens quote (body ++ [c]) (s ++ [c]) := by
  obtain ⟨front, rfl, hfront, hisQuote, hbody⟩ := h
  refine ⟨front, by simp, hfront, hisQuote, hbody.append ?_⟩
  exact .plain hbackslash hquote hfeed .nil

theorem Opens.escaped {quote : Char} {body s : Text} (h : Opens quote body s) (c : Char) :
    Opens quote (body ++ ['\\', c]) (s ++ ['\\', c]) := by
  obtain ⟨front, rfl, hfront, hisQuote, hbody⟩ := h
  exact ⟨front, by simp, hfront, hisQuote, hbody.append (.escaped .nil)⟩

theorem step_code {depth : Nat} {c : Char} (h : ¬ isQuote c = true) :
    (step ⟨depth, .code⟩ c).mode = .code := by
  rw [isQuote] at h
  rw [step]
  dsimp only
  rw [if_neg h]
  repeat' split
  all_goals rfl

theorem explains_run (s : Text) : Explains s (({} : Nesting).run s).mode := by
  induction s using List.reverseRecOn with
  | nil => trivial
  | append_singleton s c ih =>
    rw [run_snoc]
    generalize hn : ({} : Nesting).run s = n at ih
    obtain ⟨depth, mode⟩ := n
    cases mode with
    | code =>
      by_cases hc : isQuote c = true
      · rw [(step_quote (d := depth) hc).2]
        exact ⟨[], s, rfl, by rw [hn], hc, .nil⟩
      · rw [step_code hc]
        trivial
    | literal quote =>
      obtain ⟨body, hopens⟩ := ih
      by_cases hbackslash : c = '\\'
      · subst hbackslash
        exact ⟨body, s, rfl, hopens⟩
      by_cases hend : c = quote ∨ c = '\n'
      · have hstep : (step ⟨depth, .literal quote⟩ c).mode = .code := by
          simp [step, hbackslash, hend]
        rw [hstep]
        trivial
      · have hstep : (step ⟨depth, .literal quote⟩ c).mode = .literal quote := by
          simp [step, hbackslash, hend]
        rw [not_or] at hend
        rw [hstep]
        exact ⟨body ++ [c], hopens.snoc hbackslash hend.1 hend.2⟩
    | escape quote =>
      obtain ⟨body, front, rfl, hopens⟩ := ih
      refine ⟨body ++ ['\\', c], ?_⟩
      rw [List.append_assoc]
      exact hopens.escaped c

theorem run_quoted {quote : Char} {body : Text} (h : Quoted quote body) (depth : Nat) :
    run ⟨depth, .literal quote⟩ body = ⟨depth, .literal quote⟩ := by
  induction h with
  | nil => rfl
  | escaped _ ih => exact ih
  | plain hbackslash hquote hfeed _ ih =>
    rw [run_cons]
    simpa [step, hbackslash, hquote, hfeed] using ih

theorem Opens.mode_run {quote : Char} {body s : Text} (h : Opens quote body s) :
    (({} : Nesting).run s).mode = .literal quote := by
  obtain ⟨front, rfl, hfront, hquote, hbody⟩ := h
  rw [run_append]
  generalize ({} : Nesting).run front = n at hfront
  obtain ⟨depth, mode⟩ := n
  obtain rfl : mode = .code := hfront
  rw [run_cons, (step_quote hquote).2, run_quoted hbody]

theorem escapesNext_iff {s : Text} :
    EscapesNext s ↔ ∃ quote, (({} : Nesting).run s).mode = .escape quote := by
  constructor
  · rintro ⟨quote, body, front, rfl, hopens⟩
    refine ⟨quote, ?_⟩
    rw [run_snoc, step, hopens.mode_run]
    rfl
  · rintro ⟨quote, hmode⟩
    have hexplains := explains_run s
    rw [hmode] at hexplains
    exact ⟨quote, hexplains⟩

theorem run_feed {s : Text} (h : ¬ EscapesNext s) :
    ({} : Nesting).run (s ++ ['\n']) = ⟨(({} : Nesting).run s).depth, .code⟩ := by
  rw [escapesNext_iff] at h
  rw [run_snoc]
  generalize ({} : Nesting).run s = n at h
  obtain ⟨depth, mode⟩ := n
  cases mode with
  | code => rfl
  | literal quote => simp [step]
  | escape quote => exact absurd ⟨quote, rfl⟩ h

theorem run_feed_of_escapesNext {s : Text} (h : EscapesNext s) : ∃ quote,
    ({} : Nesting).run (s ++ ['\n']) = ⟨(({} : Nesting).run s).depth, .literal quote⟩ := by
  obtain ⟨quote, hmode⟩ := escapesNext_iff.mp h
  exact ⟨quote, by rw [run_snoc, step, hmode]⟩

/-! ## Texts put together -/

theorem exposed_append (n : Nesting) (a b : Text) :
    n.exposed (a ++ b) = n.exposed a ++ (n.run a).exposed b := by
  induction a generalizing n with
  | nil => rfl
  | cons c a ih => rw [List.cons_append, exposed, ih, exposed, run_cons, List.cons_append]

theorem avoids_of_unclosed {n : Nesting} {t : Text} (h : n.arguments t = .unclosed) :
    n.avoids isDelimiter t = true := by
  induction t generalizing n with
  | nil => rfl
  | cons c t ih =>
    cases hc : n.halts c with
    | true =>
      obtain rfl := eq_of_halts hc
      rw [halts, Bool.and_eq_true, Bool.or_eq_true, beq_iff_eq] at hc
      rcases hc.2 with rfl | hstop
      · rw [arguments_cons_paren] at h
        simp at h
      · rw [arguments_cons_stop hstop] at h
        simp at h
    | false =>
      rw [arguments_cons hc] at h
      have hrest : (n.step c).arguments t = .unclosed := by
        cases hread : (n.step c).arguments t <;> simp [hread, ArgumentSpan.push] at h ⊢
      rw [avoids, ih hrest, Bool.and_true, Bool.not_eq_true']
      exact hc

end Nesting

namespace Argument

/-- The tokens of two pieces of a text that is cut somewhere in a token. -/
def glue : List Text → List Text → List Text
  | [], others => others
  | [last], [] => [last]
  | [last], first :: others => (last ++ first) :: others
  | token :: next :: tokens, others => token :: glue (next :: tokens) others

theorem glue_pushFirst {tokens : List Text} (h : tokens ≠ []) (c : Char) {others : List Text}
    (hothers : others ≠ []) :
    glue (pushFirst c tokens) others = pushFirst c (glue tokens others) := by
  cases tokens with
  | nil => exact absurd rfl h
  | cons token tokens =>
    cases tokens with
    | nil =>
      cases others with
      | nil => exact absurd rfl hothers
      | cons first others => rfl
    | cons next tokens => rfl

theorem splitFrom_append (n : Nesting) (a b : Text) :
    splitFrom n (a ++ b) = glue (splitFrom n a) (splitFrom (n.run a) b) := by
  induction a generalizing n with
  | nil =>
    cases h : splitFrom n b with
    | nil => exact absurd h (splitFrom_ne_nil n b)
    | cons first others =>
      rw [List.nil_append, Nesting.run_nil, h]
      rfl
  | cons c a ih =>
    have hne := splitFrom_ne_nil (n.step c) a
    have hne' := splitFrom_ne_nil ((n.step c).run a) b
    rw [List.cons_append, splitFrom, splitFrom, ih, Nesting.run_cons]
    split
    · cases h : splitFrom (n.step c) a with
      | nil => exact absurd h hne
      | cons token tokens => rfl
    · rw [glue_pushFirst hne c hne']

end Argument

/-! ## The next line -/

open Nesting Argument

/-- A line feed leaves no literal open, unless a backslash takes it along.  If none does, what
stands behind it is judged by the depth of the brackets alone: which characters a scan sees there,
where arguments that are still open end, and where tokens are cut. -/
theorem run_line_feed (s : Text) :
    ((({} : Nesting).run (s ++ ['\n'])).mode = .code ↔ ¬ EscapesNext s) ∧
    (EscapesNext s → ∃ quote,
      ({} : Nesting).run (s ++ ['\n']) = ⟨(({} : Nesting).run s).depth, .literal quote⟩) ∧
    (¬ EscapesNext s → ∀ t, let next : Nesting := ⟨(({} : Nesting).run s).depth, .code⟩
      ({} : Nesting).exposed (s ++ '\n' :: t) =
        ({} : Nesting).exposed (s ++ ['\n']) ++ next.exposed t ∧
      split (s ++ '\n' :: t) = glue (split (s ++ ['\n'])) (splitFrom next t) ∧
      (argumentSpan s = .unclosed →
        argumentSpan (s ++ '\n' :: t) = (next.arguments t).prepend (s ++ ['\n']))) := by
  refine ⟨⟨?_, ?_⟩, run_feed_of_escapesNext, ?_⟩
  · intro hmode hescapes
    obtain ⟨quote, hquote⟩ := run_feed_of_escapesNext hescapes
    rw [hquote] at hmode
    simp at hmode
  · intro hescapes
    rw [run_feed hescapes]
  · intro hescapes t next
    have hline : s ++ '\n' :: t = (s ++ ['\n']) ++ t := by simp
    rw [hline]
    refine ⟨?_, ?_, ?_⟩
    · rw [exposed_append, run_feed hescapes]
    · have hsplit (u : Text) : split (s ++ ['\n'] ++ u) = splitFrom {} (s ++ ['\n'] ++ u) := by
        rw [split, if_neg (by simp)]
      have hfirst := hsplit []
      rw [List.append_nil] at hfirst
      rw [hsplit, hfirst, splitFrom_append, run_feed hescapes]
    · intro hunclosed
      have havoids : ({} : Nesting).avoids isDelimiter (s ++ ['\n']) = true := by
        have hfeed : isDelimiter '\n' = false := by decide
        rw [avoids_append, avoids_of_unclosed hunclosed, avoids, avoids, hfeed]
        simp
      rw [argumentSpan, arguments_append havoids, run_feed hescapes]

/-- An apostrophe in a comment is over with its line: the comma and the parenthesis behind the line
feed are seen.  Behind one that a backslash follows the literal is still open. -/
theorem run_line_feed_comment :
    let s := "a // don't".toList
    let escaping := "'\\".toList
    ¬ EscapesNext s ∧ argumentSpan s = .unclosed ∧
      split (s ++ '\n' :: ", b".toList) = ["a // don't\n".toList, " b".toList] ∧
      argumentSpan (s ++ '\n' :: ", b)".toList) = .closed "a // don't\n, b".toList [] ∧
      EscapesNext escaping ∧
      ∃ quote, ({} : Nesting).run (escaping ++ ['\n']) = ⟨0, .literal quote⟩ := by
  intro s escaping
  obtain ⟨hmode, -, hnext⟩ := run_line_feed s
  have hescapes : ¬ EscapesNext s := hmode.mp (by decide)
  have hunclosed : argumentSpan s = .unclosed := by decide
  have hescaping : EscapesNext escaping := escapesNext_iff.mpr ⟨'\'', by decide⟩
  refine ⟨hescapes, hunclosed, ?_, ?_, hescaping, (run_line_feed escaping).2.1 hescaping⟩
  · rw [(hnext hescapes ", b".toList).2.1]
    decide
  · rw [(hnext hescapes ", b)".toList).2.2 hunclosed]
    decide

/-- Behind a backslash a literal goes on in the next line, and hides what stands there. -/
theorem literal_over_line_feed :
    (({} : Nesting).run "'\\\n".toList).mode = .literal '\'' ∧
      ({} : Nesting).exposed "'\\\n,".toList = [none, none, none, none] ∧
      split "'\\\n,".toList = ["'\\\n,".toList] ∧ argumentSpan "'\\\n)".toList = .unclosed ∧
      ¬ ∀ s : Text, (({} : Nesting).run (s ++ ['\n'])).mode = .code := by
  refine ⟨by decide, by decide, by decide, by decide, ?_⟩
  intro h
  exact absurd (h "'\\".toList) (by decide)

end Sketch
end SketchPreview
