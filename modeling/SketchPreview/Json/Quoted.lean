import SketchPreview.Json.Fault

/-!
String literals of JSON.  `next` reads one character of a literal, escaped or not; `read` repeats it
up to the closing quote.  A literal whose text does not matter is skipped with fewer questions
asked: an escape then need not spell a character.
-/

namespace SketchPreview
namespace Json
namespace Quoted

/-- What stands at the front of the text inside a literal. -/
inductive Step where
  | close (rest : Text)
  | char (c : Char) (rest : Text)
deriving DecidableEq

def Step.rest : Step → Text
  | .close rest => rest
  | .char _ rest => rest

def hexUnit? (a b c d : Char) : Option Nat := do
  let a ← Text.hexValue? a
  let b ← Text.hexValue? b
  let c ← Text.hexValue? c
  let d ← Text.hexValue? d
  return ((a * 16 + b) * 16 + c) * 16 + d

/-- The fault of four bytes that do not spell a code unit.  They are all read before it is found. -/
def brokenUnit (t : Text) : Fault :=
  if Text.byteSize t < 4 then .atEnd .endInText else ⟨.invalidEscape, Text.byteSize t - 4⟩

/-- The code unit that four hexadecimal digits spell, and the text behind them. -/
def readUnit : Text → Except Fault (Nat × Text)
  | a :: b :: c :: d :: rest =>
    match hexUnit? a b c d with
    | some n => .ok (n, rest)
    | none => .error (brokenUnit (a :: b :: c :: d :: rest))
  | t => .error (brokenUnit t)

def isHighSurrogate (n : Nat) : Bool := 0xD800 ≤ n && n < 0xDC00

def isLowSurrogate (n : Nat) : Bool := 0xDC00 ≤ n && n < 0xE000

/-- The character of a pair of surrogates. -/
def pair (high low : Nat) : Char := Char.ofNat (0x10000 + (high - 0xD800) * 0x400 + (low - 0xDC00))

/-- The second half of a pair, and the text behind it. -/
def readLow : Text → Except Fault (Nat × Text)
  | '\\' :: 'u' :: t =>
    match readUnit t with
    | .error f => .error f
    | .ok (n, rest) =>
      if isLowSurrogate n then .ok (n, rest) else .error (.behind .loneSurrogate rest)
  | '\\' :: [] => .error (.atEnd .endInText)
  | '\\' :: t => .error (.within .unpairedSurrogate t)
  | [] => .error (.atEnd .endInText)
  | t => .error (.within .unpairedSurrogate t)

/-- The character that follows `\u`. -/
def readUnicode (t : Text) : Except Fault Step :=
  match readUnit t with
  | .error f => .error f
  | .ok (n, rest) =>
    if isLowSurrogate n then .error (.behind .loneSurrogate rest)
    else if isHighSurrogate n then
      match readLow rest with
      | .error f => .error f
      | .ok (low, rest) => .ok (.char (pair n low) rest)
    else .ok (.char (Char.ofNat n) rest)

/-- The character of an escape of one letter. -/
def escaped? (c : Char) : Option Char :=
  if c == '"' || c == '\\' || c == '/' then some c
  else if c == 'b' then some '\x08'
  else if c == 'f' then some '\x0c'
  else if c == 'n' then some '\n'
  else if c == 'r' then some '\r'
  else if c == 't' then some '\t'
  else none

def readEscape : Text → Except Fault Step
  | [] => .error (.atEnd .endInText)
  | c :: rest =>
    match escaped? c with
    | some d => .ok (.char d rest)
    | none => if c == 'u' then readUnicode rest else .error (.within .invalidEscape (c :: rest))

def isControl (c : Char) : Bool := c.toNat < 0x20

def next : Text → Except Fault Step
  | [] => .error (.atEnd .endInText)
  | c :: rest =>
    if c == '"' then .ok (.close rest)
    else if c == '\\' then readEscape rest
    else if isControl c then .error (.behind .controlCharacter rest)
    else .ok (.char c rest)

/-- As `readEscape`, for a literal that is passed over: surrogates may stand alone. -/
def skipEscape : Text → Except Fault Text
  | [] => .error (.atEnd .endInText)
  | c :: rest =>
    if (escaped? c).isSome then .ok rest
    else if c == 'u' then
      match readUnit rest with
      | .error f => .error f
      | .ok (_, behind) => .ok behind
    else .error (.within .invalidEscape (c :: rest))

/-- As `next`, for a literal that is passed over, with the text behind the character.  A control
character is a fault before it is read. -/
def skipNext : Text → Except Fault Step
  | [] => .error (.atEnd .endInText)
  | c :: rest =>
    if c == '"' then .ok (.close rest)
    else if c == '\\' then
      match skipEscape rest with
      | .error f => .error f
      | .ok behind => .ok (.char c behind)
    else if isControl c then .error (.behind .controlCharacter (c :: rest))
    else .ok (.char c rest)

theorem length_readUnit {t rest : Text} {n : Nat} (h : readUnit t = .ok (n, rest)) :
    rest.length < t.length := by
  unfold readUnit at h
  repeat' split at h
  all_goals simp at h
  simp only [← h.2, List.length_cons]
  omega

theorem length_readLow {t rest : Text} {n : Nat} (h : readLow t = .ok (n, rest)) :
    rest.length < t.length := by
  unfold readLow at h
  repeat' split at h
  all_goals simp at h
  rename_i hu _
  have := length_readUnit hu
  simp only [← h.2, List.length_cons]
  omega

theorem length_readUnicode {t : Text} {s : Step} (h : readUnicode t = .ok s) :
    s.rest.length < t.length := by
  unfold readUnicode at h
  split at h
  · simp at h
  · rename_i hu
    have := length_readUnit hu
    repeat' split at h
    all_goals simp at h
    · rename_i hl
      have := length_readLow hl
      simp only [← h, Step.rest]
      omega
    · simpa only [← h, Step.rest]

theorem length_readEscape {t : Text} {s : Step} (h : readEscape t = .ok s) :
    s.rest.length < t.length := by
  unfold readEscape at h
  split at h
  · simp at h
  · split at h
    · simp only [Except.ok.injEq] at h
      simp [← h, Step.rest]
    · split at h
      · exact Nat.lt_succ_of_lt (length_readUnicode h)
      · simp at h

theorem length_next {t : Text} {s : Step} (h : next t = .ok s) : s.rest.length < t.length := by
  unfold next at h
  split at h
  · simp at h
  · repeat' split at h
    all_goals try simp only [Except.ok.injEq, reduceCtorEq] at h
    · simp [← h, Step.rest]
    · exact Nat.lt_succ_of_lt (length_readEscape h)
    · simp [← h, Step.rest]

theorem length_skipEscape {t rest : Text} (h : skipEscape t = .ok rest) :
    rest.length < t.length := by
  unfold skipEscape at h
  split at h
  · simp at h
  · repeat' split at h
    all_goals try simp only [Except.ok.injEq, reduceCtorEq] at h
    · simp [h]
    · rename_i hu
      subst h
      exact Nat.lt_succ_of_lt (length_readUnit hu)

theorem length_skipNext {t : Text} {s : Step} (h : skipNext t = .ok s) :
    s.rest.length < t.length := by
  unfold skipNext at h
  split at h
  · simp at h
  · repeat' split at h
    all_goals try simp only [Except.ok.injEq, reduceCtorEq] at h
    · simp [← h, Step.rest]
    · rename_i he
      subst h
      exact Nat.lt_succ_of_lt (length_skipEscape he)
    · simp [← h, Step.rest]

/-- The text of a literal, from behind its opening quote, and the text behind the closing one. -/
def read (t : Text) : Except Fault (Text × Text) :=
  match h : next t with
  | .error f => .error f
  | .ok (.close rest) => .ok ([], rest)
  | .ok (.char c rest) =>
    have : rest.length < t.length := length_next h
    (read rest).map fun (text, rest) => (c :: text, rest)
termination_by t.length

/-- The text behind a literal. -/
def skip (t : Text) : Except Fault Text :=
  match h : skipNext t with
  | .error f => .error f
  | .ok (.close rest) => .ok rest
  | .ok (.char _ rest) =>
    have : rest.length < t.length := length_skipNext h
    skip rest
termination_by t.length

theorem length_skip {t rest : Text} (h : skip t = .ok rest) : rest.length < t.length := by
  fun_induction skip t with
  | case1 => simp at h
  | case2 t r hn =>
    simp only [Except.ok.injEq] at h
    simpa only [h, Step.rest] using length_skipNext hn
  | case3 t c r hn hl ih =>
    have := ih h
    omega

/-! ## Writing -/

/-- The letter of an escape for a character that must not stand in a literal as it is. -/
def escapeLetter? (c : Char) : Option Char :=
  if c == '"' || c == '\\' then some c
  else if c == '\x08' then some 'b'
  else if c == '\x0c' then some 'f'
  else if c == '\n' then some 'n'
  else if c == '\r' then some 'r'
  else if c == '\t' then some 't'
  else none

def hexDigit (n : Nat) : Char := Char.ofNat (if n < 10 then 0x30 + n else 0x57 + n)

def writeChar (c : Char) : Text :=
  match escapeLetter? c with
  | some letter => ['\\', letter]
  | none =>
    if isControl c then ['\\', 'u', '0', '0', hexDigit (c.toNat / 16), hexDigit (c.toNat % 16)]
    else [c]

def write (t : Text) : Text := '"' :: t.flatMap writeChar ++ ['"']

end Quoted
end Json
end SketchPreview
