import SketchPreview.Sketch.ArgumentSpan
import SketchPreview.Text.Identifier
import SketchPreview.Text.Search

/-!
The calls of a function in sketch text.  `Cut.of` cuts a source at the calls of one callee; the
calls are found from it (`findAll`) and replaced in it (`replaceAll`).  `Cut.text_of` says that a
cut put together again is the source, so whatever is replaced, all text between the calls stays.
-/

namespace SketchPreview
namespace Sketch

/-- A complete call in a source. -/
structure Call where
  /-- The byte at which the name begins. -/
  start : Nat
  callee : Text
  /-- The spaces and tabs between the name and the parenthesis. -/
  gap : Text
  arguments : Text
deriving DecidableEq

namespace Call

def text (c : Call) : Text := c.callee ++ c.gap ++ '(' :: c.arguments ++ [')']

/-- The byte behind the closing parenthesis. -/
def stop (c : Call) : Nat := c.start + Text.byteSize c.text

def hasNoArguments (c : Call) : Bool := (Text.trim c.arguments).isEmpty

def isGapChar (c : Char) : Bool := c == ' ' || c == '\t'

/-- The call whose name starts at byte `start`, read from the text behind the name, and the text
behind the call. -/
def read? (start : Nat) (callee t : Text) : Option (Call × Text) :=
  match t.dropWhile isGapChar with
  | '(' :: inner =>
    match argumentSpan inner with
    | .closed arguments rest => some (⟨start, callee, t.takeWhile isGapChar, arguments⟩, rest)
    | .stopped _ => none
    | .unclosed => none
  | _ => none

/-- As `read?`, for a name behind the character `previous`: there is no call when the name continues
an identifier. -/
def readBehind? (previous : Option Char) (start : Nat) (callee t : Text) : Option (Call × Text) :=
  if previous.any Text.isIdentifierChar then none else read? start callee t

theorem text_of_read? {start : Nat} {callee t rest : Text} {c : Call}
    (h : read? start callee t = some (c, rest)) : callee ++ t = c.text ++ rest := by
  unfold read? at h
  split at h
  · rename_i inner hd
    split at h
    · rename_i arguments r hs
      simp only [Option.some.injEq, Prod.mk.injEq] at h
      obtain ⟨rfl, rfl⟩ := h
      conv => lhs; rw [← List.takeWhile_append_dropWhile (p := isGapChar) (l := t), hd,
        eq_of_argumentSpan hs]
      simp [Call.text]
    · simp at h
    · simp at h
  · simp at h

theorem length_lt_of_read? {start : Nat} {callee t rest : Text} {c : Call}
    (h : read? start callee t = some (c, rest)) : rest.length < t.length := by
  have hc : c.callee = callee := by
    unfold read? at h
    grind
  have := congrArg List.length (text_of_read? h)
  simp only [Call.text, hc, List.length_append, List.length_cons, List.length_nil] at this
  omega

theorem text_of_readBehind? {previous : Option Char} {start : Nat} {callee t rest : Text} {c : Call}
    (h : readBehind? previous start callee t = some (c, rest)) : callee ++ t = c.text ++ rest := by
  unfold readBehind? at h
  split at h
  · simp at h
  · exact text_of_read? h

theorem length_lt_of_readBehind? {previous : Option Char} {start : Nat} {callee t rest : Text}
    {c : Call} (h : readBehind? previous start callee t = some (c, rest)) :
    rest.length < t.length := by
  unfold readBehind? at h
  split at h
  · simp at h
  · exact length_lt_of_read? h

end Call

/-- A source cut at the calls of one callee: the text in front of each call, the call, and the text
behind the last. -/
inductive Cut where
  | last (t : Text)
  | call (before : Text) (c : Call) (after : Cut)

namespace Cut

/-- Puts text in front. -/
def prepend (t : Text) : Cut → Cut
  | .last u => .last (t ++ u)
  | .call before c after => .call (t ++ before) c after

def calls : Cut → List Call
  | .last _ => []
  | .call _ c after => c :: after.calls

/-- The text with `f c` in place of each call `c`. -/
def fill (f : Call → Text) : Cut → Text
  | .last t => t
  | .call before c after => before ++ f c ++ after.fill f

theorem fill_prepend (f : Call → Text) (t : Text) (k : Cut) :
    (k.prepend t).fill f = t ++ k.fill f := by
  cases k <;> simp [prepend, fill]

theorem calls_prepend (t : Text) (k : Cut) : (k.prepend t).calls = k.calls := by
  cases k <;> rfl

/-- Cuts text that stands at byte `offset` behind the character `previous`.  An occurrence of the
name is passed over when it continues an identifier or when no complete call follows it; the scan
then goes on behind the name, so a call inside unclosed arguments is still found. -/
def scan (callee : Text) (offset : Nat) (previous : Option Char) (t : Text) : Cut :=
  if hc : callee = [] then .last t
  else
    match ht : Text.cutAt? callee t with
    | none => .last t
    | some (before, tail) =>
      have := Text.length_lt_of_cutAt? hc ht
      let start := offset + Text.byteSize before
      match hr : Call.readBehind? (before.getLast?.or previous) start callee tail with
      | none =>
        (scan callee (start + Text.byteSize callee) callee.getLast? tail).prepend (before ++ callee)
      | some (c, rest) =>
        have := Call.length_lt_of_readBehind? hr
        .call before c (scan callee c.stop (some ')') rest)
termination_by t.length

def of (callee source : Text) : Cut := scan callee 0 none source

theorem text_scan (callee : Text) (offset : Nat) (previous : Option Char) (t : Text) :
    (scan callee offset previous t).fill Call.text = t := by
  fun_induction scan callee offset previous t with
  | case1 => rfl
  | case2 => rfl
  | case3 offset previous t hc before tail ht _ start _ ih =>
    simp only [fill_prepend, ih]
    exact (Text.eq_of_cutAt? ht).symm
  | case4 offset previous t hc before tail ht _ start c rest hr _ ih =>
    simp only [fill, ih, List.append_assoc, ← Call.text_of_readBehind? hr]
    simpa using (Text.eq_of_cutAt? ht).symm

theorem text_of (callee source : Text) : (of callee source).fill Call.text = source :=
  text_scan callee 0 none source

end Cut

namespace Call

/-- The complete calls of `callee`, in the order of the source. -/
def findAll (callee source : Text) : List Call := (Cut.of callee source).calls

/-- The source with `f c` in place of each complete call `c` of `callee`. -/
def replaceAll (callee : Text) (f : Call → Text) (source : Text) : Text :=
  (Cut.of callee source).fill f

end Call
end Sketch
end SketchPreview
