import SketchPreview.Json.Quoted
import SketchPreview.Proofs.Json.Grammar

/-!
A literal is read as the text that it spells, and is passed over as a whole.

A character is written as it is, as an escape of one letter, as one of four digits or as a pair of
those.  `read_append` and `skip_append` say that a reader takes just what was written for one, and
`read_literal` and `skip_literal` repeat this up to the closing quote.  What the library writes is
among what is read: `spellsText_write`.
-/

namespace SketchPreview
namespace Json
namespace Quoted

/-! ## One character -/

theorem hexValue?_of_isHexDigit {n : Nat} {c : Char} (h : IsHexDigit n c) :
    Text.hexValue? c = some n := by
  have hdigit : ∀ n, n < 16 → Text.hexValue? n.digitChar = some n ∧
      Text.hexValue? n.digitChar.toUpper = some n := by decide
  obtain ⟨hlower, hupper⟩ := hdigit n h.1
  rcases h.2 with rfl | rfl
  · exact hlower
  · exact hupper

theorem readUnit_append {n : Nat} {w : Text} (h : SpellsUnit n w) (rest : Text) :
    readUnit (w ++ rest) = .ok (n, rest) := by
  obtain ⟨a, b, c, d, hdigits, rfl⟩ := h
  obtain ⟨x, _, hx, hthree, rfl⟩ := List.forall₂_cons_left_iff.mp hdigits
  obtain ⟨y, _, hy, htwo, rfl⟩ := List.forall₂_cons_left_iff.mp hthree
  obtain ⟨z, _, hz, hone, rfl⟩ := List.forall₂_cons_left_iff.mp htwo
  obtain ⟨u, _, hu, hnone, rfl⟩ := List.forall₂_cons_left_iff.mp hone
  obtain rfl := List.forall₂_nil_left_iff.mp hnone
  show readUnit (x :: y :: z :: u :: rest) = _
  rw [readUnit, hexUnit?, hexValue?_of_isHexDigit hx, hexValue?_of_isHexDigit hy,
    hexValue?_of_isHexDigit hz, hexValue?_of_isHexDigit hu]
  rfl

theorem escaped?_of_mem_escapes {letter c : Char} (h : (letter, c) ∈ escapes) :
    escaped? letter = some c := by
  have hall : ∀ p ∈ escapes, escaped? p.1 = some p.2 := by decide
  exact hall _ h

theorem not_isSurrogate (c : Char) :
    isLowSurrogate c.toNat = false ∧ isHighSurrogate c.toNat = false := by
  have hvalid : c.toNat < 0xD800 ∨ 0xDFFF < c.toNat ∧ c.toNat < 0x110000 := c.valid
  simp only [isLowSurrogate, isHighSurrogate, Bool.and_eq_false_iff, decide_eq_false_iff_not]
  omega

theorem readUnicode_pair {c : Char} {high low : Nat} {v w : Text}
    (hhigh : 0xD800 ≤ high ∧ high < 0xDC00) (hlow : 0xDC00 ≤ low ∧ low < 0xE000)
    (hc : c.toNat = 0x10000 + (high - 0xD800) * 0x400 + (low - 0xDC00)) (hv : SpellsUnit high v)
    (hw : SpellsUnit low w) (rest : Text) :
    readUnicode (v ++ '\\' :: 'u' :: (w ++ rest)) = .ok (.char c rest) := by
  have hfirst : isLowSurrogate high = false ∧ isHighSurrogate high = true := by
    simp only [isLowSurrogate, isHighSurrogate, Bool.and_eq_false_iff, Bool.and_eq_true,
      decide_eq_false_iff_not, decide_eq_true_eq]
    omega
  have hsecond : isLowSurrogate low = true := by
    simp only [isLowSurrogate, Bool.and_eq_true, decide_eq_true_eq]
    omega
  have hpair : pair high low = c := by
    rw [pair, ← hc, Char.ofNat_toNat]
  rw [readUnicode, readUnit_append hv]
  dsimp only
  rw [hfirst.1, hfirst.2, if_neg Bool.false_ne_true, if_pos rfl, readLow, readUnit_append hw]
  dsimp only
  rw [hsecond, if_pos rfl]
  dsimp only
  rw [hpair]

theorem next_append {c : Char} {w : Text} (h : SpellsChar c w) (rest : Text) :
    next (w ++ rest) = .ok (.char c rest) := by
  cases h with
  | plain hquote hbackslash hcontrol =>
    show next (c :: rest) = _
    rw [next, if_neg (by simpa using hquote), if_neg (by simpa using hbackslash),
      if_neg (by simpa [isControl] using hcontrol)]
  | letter h =>
    rw [List.cons_append, next, if_neg (by decide), if_pos (by decide)]
    show readEscape (_ :: rest) = _
    rw [readEscape, escaped?_of_mem_escapes h]
  | unit h =>
    obtain ⟨hlow, hhigh⟩ := not_isSurrogate c
    rw [List.cons_append, next, if_neg (by decide), if_pos (by decide)]
    show readUnicode (_ ++ rest) = _
    rw [readUnicode, readUnit_append h]
    dsimp only
    rw [hlow, hhigh, if_neg Bool.false_ne_true, if_neg Bool.false_ne_true, Char.ofNat_toNat]
  | pair hhigh hlow hc hv hw =>
    rw [List.cons_append, next, if_neg (by decide), if_pos (by decide)]
    show readUnicode (_ ++ rest) = _
    rw [List.append_assoc]
    exact readUnicode_pair hhigh hlow hc hv hw rest

/-! ## Whole literals -/

theorem read_of_close {t rest : Text} (h : next t = .ok (.close rest)) :
    read t = .ok ([], rest) := by
  rw [read]
  split <;> simp_all

theorem read_append {c : Char} {w : Text} (h : SpellsChar c w) (rest : Text) :
    read (w ++ rest) = (read rest).map fun (text, rest) => (c :: text, rest) := by
  have hnext := next_append h rest
  rw [read]
  split <;> simp_all

theorem skip_of_close {t rest : Text} (h : skipNext t = .ok (.close rest)) :
    skip t = .ok rest := by
  rw [skip]
  split <;> simp_all

theorem skip_of_char {t rest : Text} {c : Char} (h : skipNext t = .ok (.char c rest)) :
    skip t = skip rest := by
  rw [skip]
  split <;> simp_all

theorem skip_unit {n : Nat} {w : Text} (h : SpellsUnit n w) (rest : Text) :
    skip ('\\' :: 'u' :: (w ++ rest)) = skip rest := by
  have hescape : skipEscape ('u' :: (w ++ rest)) = .ok rest := by
    rw [skipEscape, if_neg (by decide), if_pos (by decide), readUnit_append h]
  refine skip_of_char (c := '\\') ?_
  rw [skipNext, if_neg (by decide), if_pos (by decide), hescape]

/-- Where a literal is passed over, a pair of surrogates counts as two characters. -/
theorem skip_append {c : Char} {w : Text} (h : SpellsChar c w) (rest : Text) :
    skip (w ++ rest) = skip rest := by
  cases h with
  | plain hquote hbackslash hcontrol =>
    refine skip_of_char (c := c) ?_
    show skipNext (c :: rest) = _
    rw [skipNext, if_neg (by simpa using hquote), if_neg (by simpa using hbackslash),
      if_neg (by simpa [isControl] using hcontrol)]
  | @letter l _ h =>
    refine skip_of_char (c := '\\') ?_
    show skipNext ('\\' :: l :: rest) = _
    rw [skipNext, if_neg (by decide), if_pos (by decide), skipEscape, escaped?_of_mem_escapes h]
    rfl
  | unit h => exact skip_unit h rest
  | pair hhigh hlow hc hv hw =>
    show skip ('\\' :: 'u' :: (_ ++ rest)) = _
    rw [List.append_assoc, skip_unit hv]
    exact skip_unit hw rest

theorem read_literal {t : Text} {parts : List Text} (h : List.Forall₂ SpellsChar t parts)
    (rest : Text) : read (parts.flatten ++ '"' :: rest) = .ok (t, rest) := by
  induction h with
  | nil => exact read_of_close rfl
  | cons hc _ ih =>
    rw [List.flatten_cons, List.append_assoc, read_append hc, ih]
    rfl

theorem skip_literal {t : Text} {parts : List Text} (h : List.Forall₂ SpellsChar t parts)
    (rest : Text) : skip (parts.flatten ++ '"' :: rest) = .ok rest := by
  induction h with
  | nil => exact skip_of_close rfl
  | cons hc _ ih => rw [List.flatten_cons, List.append_assoc, skip_append hc, ih]

/-! ## What is written -/

theorem mem_escapes_of_escapeLetter? {c letter : Char} (h : escapeLetter? c = some letter) :
    (letter, c) ∈ escapes := by
  simp only [escapeLetter?, Bool.or_eq_true, beq_iff_eq] at h
  split at h
  · rename_i hc
    obtain rfl := Option.some.inj h
    rcases hc with rfl | rfl <;> decide
  repeat' split at h
  all_goals
    simp only [Option.some.injEq, reduceCtorEq] at h
  all_goals
    subst_vars
    decide

theorem ne_of_escapeLetter?_eq_none {c : Char} (h : escapeLetter? c = none) :
    c ≠ '"' ∧ c ≠ '\\' := by
  constructor
  · rintro rfl
    simp [escapeLetter?] at h
  · rintro rfl
    simp [escapeLetter?] at h

theorem spellsUnit_control {n : Nat} (h : n < 0x20) :
    SpellsUnit n ['0', '0', hexDigit (n / 16), hexDigit (n % 16)] := by
  have hdigit : ∀ n, n < 16 → hexDigit n = n.digitChar := by decide
  refine ⟨0, 0, n / 16, n % 16, ?_, by omega⟩
  refine .cons ⟨by decide, .inl rfl⟩ (.cons ⟨by decide, .inl rfl⟩ (.cons ?_ (.cons ?_ .nil)))
  · exact ⟨by omega, .inl (hdigit _ (by omega))⟩
  · exact ⟨by omega, .inl (hdigit _ (by omega))⟩

theorem spellsChar_writeChar (c : Char) : SpellsChar c (writeChar c) := by
  rw [writeChar]
  cases hletter : escapeLetter? c with
  | some letter => exact .letter (mem_escapes_of_escapeLetter? hletter)
  | none =>
    by_cases hcontrol : isControl c = true
    · simp only [hcontrol, if_true]
      exact .unit (spellsUnit_control (by simpa [isControl] using hcontrol))
    · obtain ⟨hquote, hbackslash⟩ := ne_of_escapeLetter?_eq_none hletter
      simp only [hcontrol]
      exact .plain hquote hbackslash (by simpa [isControl] using hcontrol)

theorem spellsText_write (t : Text) : SpellsText t (write t) := by
  refine ⟨t.map writeChar, ?_, ?_⟩
  · exact List.forall₂_map_right_iff.mpr (List.forall₂_same.mpr fun c _ => spellsChar_writeChar c)
  · rw [write, List.cons_append, List.flatMap_def]

end Quoted
end Json
end SketchPreview
