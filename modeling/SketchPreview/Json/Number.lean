import SketchPreview.Json.Fault

/-!
Numbers in a JSON text.  `Numeral.scan` checks the grammar and takes the digits apart;
`Numeral.value` computes the number, which is an integer where it can be and otherwise a double.
-/

namespace SketchPreview
namespace Json

/-- The number that a numeral stands for. -/
inductive Number where
  /-- A natural number below two to the sixty-fourth. -/
  | natural (n : Nat)
  /-- The number `-n`, for `n` from one to two to the sixty-third. -/
  | negative (n : Nat)
  /-- Any other number, as the bits of a double. -/
  | real (bits : UInt64)
deriving DecidableEq

/-- A numeral in its parts.  A fraction that is there has a digit, and so has an exponent. -/
structure Numeral where
  negative : Bool
  whole : Text
  fraction : Text
  /-- Whether the exponent is negative, and its digits. -/
  exponent : Option (Bool × Text)
deriving DecidableEq

namespace Numeral

/-- One digit or more.  The error is the text from the character that should have been one. -/
def scanDigits (t : Text) : Except Text (Text × Text) :=
  match t.takeWhile Char.isDigit with
  | [] => .error t
  | digits => .ok (digits, t.dropWhile Char.isDigit)

/-- The whole digits; a zero that comes first stands alone. -/
def scanWhole : Text → Except Text (Text × Text)
  | '0' :: rest => if rest.head?.any Char.isDigit then .error rest else .ok (['0'], rest)
  | t => scanDigits t

/-- The digits behind a point; none where there is no point. -/
def scanFraction : Text → Except Text (Text × Text)
  | '.' :: rest => scanDigits rest
  | t => .ok ([], t)

def exponentSign : Text → Bool × Text
  | '+' :: rest => (false, rest)
  | '-' :: rest => (true, rest)
  | t => (false, t)

def scanExponent : Text → Except Text (Option (Bool × Text) × Text)
  | e :: rest =>
    if e == 'e' || e == 'E' then
      match scanDigits (exponentSign rest).2 with
      | .error place => .error place
      | .ok (digits, behind) => .ok (some ((exponentSign rest).1, digits), behind)
    else .ok (none, e :: rest)
  | [] => .ok (none, [])

def minus : Text → Bool × Text
  | '-' :: rest => (true, rest)
  | t => (false, t)

/-- The numeral at the front of a text and the text behind it. -/
def scan (t : Text) : Except Text (Numeral × Text) :=
  match scanWhole (minus t).2 with
  | .error place => .error place
  | .ok (whole, behindWhole) =>
    match scanFraction behindWhole with
    | .error place => .error place
    | .ok (fraction, behindFraction) =>
      match scanExponent behindFraction with
      | .error place => .error place
      | .ok (exponent, rest) => .ok (⟨(minus t).1, whole, fraction, exponent⟩, rest)

theorem length_scanDigits {t digits rest : Text} (h : scanDigits t = .ok (digits, rest)) :
    rest.length < t.length := by
  unfold scanDigits at h
  split at h
  · simp at h
  · rename_i hne
    have hl := congrArg List.length (List.takeWhile_append_dropWhile (p := Char.isDigit) (l := t))
    have hp := List.length_pos_iff.2 hne
    simp only [List.length_append] at hl
    simp only [Except.ok.injEq, Prod.mk.injEq] at h
    rw [← h.2]
    omega

theorem length_scanWhole {t digits rest : Text} (h : scanWhole t = .ok (digits, rest)) :
    rest.length < t.length := by
  unfold scanWhole at h
  split at h
  · split at h
    · simp at h
    · simp only [Except.ok.injEq, Prod.mk.injEq] at h
      simp [h.2]
  · exact length_scanDigits h

theorem length_scanFraction {t digits rest : Text} (h : scanFraction t = .ok (digits, rest)) :
    rest.length ≤ t.length := by
  unfold scanFraction at h
  split at h
  · exact Nat.le_succ_of_le (Nat.le_of_lt (length_scanDigits h))
  · simp only [Except.ok.injEq, Prod.mk.injEq] at h
    simp [h.2]

theorem length_exponentSign (t : Text) : (exponentSign t).2.length ≤ t.length := by
  unfold exponentSign
  split <;> simp

theorem length_scanExponent {t rest : Text} {e : Option (Bool × Text)}
    (h : scanExponent t = .ok (e, rest)) : rest.length ≤ t.length := by
  unfold scanExponent at h
  split at h
  · rename_i c r
    have := length_exponentSign r
    split at h
    · split at h
      · simp at h
      · rename_i hd
        have := length_scanDigits hd
        simp only [Except.ok.injEq, Prod.mk.injEq] at h
        simp only [← h.2, List.length_cons]
        omega
    · simp only [Except.ok.injEq, Prod.mk.injEq] at h
      simp [← h.2]
  · simp only [Except.ok.injEq, Prod.mk.injEq] at h
    simp [← h.2]

theorem length_scan {t rest : Text} {n : Numeral} (h : scan t = .ok (n, rest)) :
    rest.length < t.length := by
  have hm : (minus t).2.length ≤ t.length := by
    unfold minus
    split <;> simp
  unfold scan at h
  repeat' split at h
  all_goals simp at h
  obtain ⟨-, rfl⟩ := h
  rename_i hw _ _ _ hf _ _ _ he
  have := length_scanWhole hw
  have := length_scanFraction hf
  have := length_scanExponent he
  omega

/-! ## The number of a numeral

Digits are taken into a word of 64 bits while they fit; those that do not fit only shift the decimal
point.  The double is then the word, rounded, times or over a power of ten, rounded again.
-/

/-- The number `n` continued by the digits that a word can take in, and how many were left over. -/
def significand (n : Nat) : Text → Nat × Nat
  | [] => (n, 0)
  | d :: rest =>
    let next := n * 10 + Text.digitValue d
    if next < UInt64.size then significand next rest else (n, rest.length + 1)

/-- The number `n` continued by the digits of an exponent, or how many digits there still were when
it became too large to matter. -/
def exponentValue (n : Nat) : Text → Except Nat Nat
  | [] => .ok n
  | d :: rest =>
    let next := n * 10 + Text.digitValue d
    if next < UInt32.size / 2 then exponentValue next rest else .error rest.length

def power (k : Nat) : Float := Float.ofScientific 1 false k

/-- Divides by a power of ten, in steps that doubles can hold. -/
def overPower (f : Float) (k : Nat) : Float :=
  if k ≤ 308 then f / power k
  else if f == 0 then f
  else overPower (f / power 308) (k - 308)
termination_by k

/-- The size of a number, unless it is beyond the doubles. -/
def size? (significand : Nat) (exponent : Int) : Option Float :=
  let f := (UInt64.ofNat significand).toFloat
  if exponent < 0 then some (overPower f exponent.natAbs)
  else if exponent ≤ 308 then
    let product := f * power exponent.natAbs
    if product.isInf then none else some product
  else if f == 0 then some f
  else none

def signed (negative : Bool) (f : Float) : Number :=
  .real (if negative then -f else f).toBits

/-- The number of a numeral.  The error is for one beyond the doubles and says how many digits of
the numeral need not be read to know it. -/
def value (n : Numeral) : Except Nat Number :=
  let (whole, left) := significand 0 n.whole
  let (all, unused) := significand whole n.fraction
  let shift : Int := left - (n.fraction.length - unused : Nat)
  let real (exponent : Int) : Except Nat Number :=
    match size? all exponent with
    | some f => .ok (signed n.negative f)
    | none => .error 0
  match n.exponent with
  | some (negative, digits) =>
    match exponentValue 0 digits with
    | .ok e => real (if negative then shift - e else shift + e)
    | .error unread =>
      if all == 0 || negative then .ok (signed n.negative 0) else .error unread
  | none =>
    if !n.fraction.isEmpty || left != 0 then real shift
    else if !n.negative then .ok (.natural whole)
    else if whole != 0 && whole ≤ UInt64.size / 2 then .ok (.negative whole)
    else real 0

end Numeral

/-- The number at the front of a text and the text behind it, or the text behind a numeral that
cannot be kept and why. -/
def Number.read (t : Text) : Except Text (Except Fault Number × Text) :=
  match Numeral.scan t with
  | .error place => .error place
  | .ok (n, rest) =>
    match n.value with
    | .ok number => .ok (.ok number, rest)
    | .error unread => .ok (.error ⟨.numberOutOfRange, Text.byteSize rest + unread⟩, rest)

theorem Number.length_read {t rest : Text} {n : Except Fault Number}
    (h : Number.read t = .ok (n, rest)) : rest.length < t.length := by
  unfold Number.read at h
  split at h
  · simp at h
  · rename_i hs
    split at h <;>
    · simp only [Except.ok.injEq, Prod.mk.injEq] at h
      rw [← h.2]
      exact Numeral.length_scan hs

end Json
end SketchPreview
