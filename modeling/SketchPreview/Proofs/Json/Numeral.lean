import SketchPreview.Json.Number
import SketchPreview.Proofs.Json.Grammar

/-!
A numeral is read as a whole, and its number is a natural one below two to the sixty-fourth exactly
if it is nothing but the digits of one (`Number.read_append`).

The numeral has to end where the text goes on with something else: `stops` says what may follow.
Each part then ends where the next one begins (`scan_append`).  The word that takes in the digits
stays behind them once it is full, for no digit makes a number smaller (`le_ofDigitChars`).
-/

namespace SketchPreview
namespace Json
namespace Numeral

open Text

/-- Whether a text that follows a number does not go on with it. -/
def stops (t : Text) : Bool :=
  t.head?.all fun c => !c.isDigit && c != '.' && c != 'e' && c != 'E'

theorem isDigit_of_mem_decimal {n : Nat} {c : Char} (h : c ∈ Text.decimal n) :
    c.isDigit = true :=
  Nat.isDigit_of_mem_toDigits (by decide) (by decide) h

theorem decimal_ne_nil (n : Nat) : Text.decimal n ≠ [] := Nat.toDigits_ne_nil

theorem eq_zero_of_head?_decimal {n : Nat} (h : (Text.decimal n).head? = some '0') : n = 0 := by
  induction n using Nat.strongRecOn with
  | ind n ih =>
    rcases Nat.lt_or_ge n 10 with hlt | hge
    · have hdigit : ∀ n, n < 10 → (Text.decimal n).head? = some '0' → n = 0 := by decide
      exact hdigit n hlt h
    · -- The first digit is that of the numeral without its last.
      cases hfront : Nat.toDigits 10 (n / 10) with
      | nil => exact absurd hfront Nat.toDigits_ne_nil
      | cons d front =>
        rw [Text.decimal, Nat.toDigits_of_base_le (by decide) hge, hfront] at h
        have hzero := ih (n / 10) (Nat.div_lt_self (by omega) (by decide))
          (by rw [Text.decimal, hfront]; exact h)
        omega

/-! ## The parts of a numeral -/

theorem mem_wholes_iff {w : Text} : w ∈ wholes ↔
    w ≠ [] ∧ (∀ c ∈ w, c.isDigit = true) ∧ (w.head? = some '0' → w = ['0']) := by
  rw [wholes, Language.mem_add]
  constructor
  · rintro (⟨c, hc, rfl⟩ | h)
    · obtain rfl := beq_iff_eq.mp hc
      exact ⟨List.cons_ne_nil _ _, List.forall_mem_singleton.mpr rfl, fun _ => rfl⟩
    · obtain ⟨c, rest, hc, hrest, rfl⟩ := mem_one_mul_iff.mp h
      obtain ⟨hdigit, hzero⟩ := Bool.and_eq_true_iff.mp hc
      refine ⟨List.cons_ne_nil c rest, List.forall_mem_cons.mpr ⟨hdigit, mem_many_iff.mp hrest⟩, ?_⟩
      intro hhead
      simp [Option.some.inj hhead] at hzero
  · rintro ⟨hne, hall, hzero⟩
    cases w with
    | nil => exact absurd rfl hne
    | cons c rest =>
      obtain ⟨hc, hrest⟩ := List.forall_mem_cons.mp hall
      by_cases hhead : c = '0'
      · exact Or.inl ⟨'0', rfl, hzero (by rw [hhead]; rfl)⟩
      · refine Or.inr (mem_one_mul_iff.mpr ⟨c, rest, ?_, mem_many_iff.mpr hrest, rfl⟩)
        rw [isLeadingDigit, hc, Bool.true_and, bne_iff_ne]
        exact hhead

theorem decimal_mem_numerals (n : Nat) : Text.decimal n ∈ numerals := by
  have hwhole : Text.decimal n ∈ wholes := by
    refine mem_wholes_iff.mpr ⟨decimal_ne_nil n, fun c hc => isDigit_of_mem_decimal hc, ?_⟩
    intro hzero
    rw [eq_zero_of_head?_decimal hzero]
    rfl
  have hnone : ∀ L : Language Char, [] ∈ 1 + L := fun L => mem_optional_iff.mpr (Or.inl rfl)
  have hnumeral := Language.append_mem_mul (hnone (one isMinus)) (Language.append_mem_mul hwhole
    (Language.append_mem_mul (hnone fractions) (hnone exponents)))
  rwa [List.nil_append, List.nil_append, List.append_nil] at hnumeral

section Digits

variable {digits rest : Text} (hne : digits ≠ []) (hdigits : ∀ c ∈ digits, c.isDigit = true)
  (hrest : ∀ c, rest.head? = some c → c.isDigit = false)

include hne hdigits hrest

theorem scanDigits_append : scanDigits (digits ++ rest) = .ok (digits, rest) := by
  have htake : rest.takeWhile Char.isDigit = [] ∧ rest.dropWhile Char.isDigit = rest := by
    cases rest with
    | nil => exact ⟨rfl, rfl⟩
    | cons c rest =>
      have hc : ¬ c.isDigit = true := by simp [hrest c rfl]
      exact ⟨List.takeWhile_cons_of_neg hc, List.dropWhile_cons_of_neg hc⟩
  rw [scanDigits, List.takeWhile_append_of_pos hdigits, htake.1, List.append_nil,
    List.dropWhile_append_of_pos hdigits, htake.2]
  cases digits with
  | nil => exact absurd rfl hne
  | cons d digits => rfl

theorem scanWhole_append (hzero : digits.head? = some '0' → digits = ['0']) :
    scanWhole (digits ++ rest) = .ok (digits, rest) := by
  by_cases hhead : digits.head? = some '0'
  · have hnext : ¬ rest.head?.any Char.isDigit = true := by
      cases rest with
      | nil => simp
      | cons c rest => simp [hrest c rfl]
    rw [hzero hhead]
    show scanWhole ('0' :: rest) = _
    rw [scanWhole, if_neg hnext]
  · rw [scanWhole]
    · exact scanDigits_append hne hdigits hrest
    · intro t ht
      cases digits with
      | nil => exact hne rfl
      | cons d digits =>
        rw [(List.cons.inj ht).1] at hhead
        exact hhead rfl

end Digits

section Scan

variable {rest : Text} (hrest : stops rest = true)

include hrest

theorem head?_of_stops {c : Char} (h : rest.head? = some c) :
    c.isDigit = false ∧ c ≠ '.' ∧ c ≠ 'e' ∧ c ≠ 'E' := by
  simpa [stops, h, and_assoc] using hrest

theorem head?_exponent {e : Text} (he : e ∈ 1 + exponents) {c : Char}
    (h : (e ++ rest).head? = some c) : c.isDigit = false ∧ c ≠ '.' := by
  rcases mem_optional_iff.mp he with rfl | he
  · obtain ⟨hdigit, hpoint, -⟩ := head?_of_stops hrest h
    exact ⟨hdigit, hpoint⟩
  · obtain ⟨mark, behind, hmark, -, rfl⟩ := mem_one_mul_iff.mp he
    obtain rfl : mark = c := Option.some.inj h
    rw [isExponentMark, Bool.or_eq_true, beq_iff_eq, beq_iff_eq] at hmark
    rcases hmark with rfl | rfl <;> decide

theorem head?_fraction {f e : Text} (hf : f ∈ 1 + fractions) (he : e ∈ 1 + exponents) {c : Char}
    (h : (f ++ (e ++ rest)).head? = some c) : c.isDigit = false := by
  rcases mem_optional_iff.mp hf with rfl | hf
  · exact (head?_exponent hrest he h).1
  · obtain ⟨point, behind, hpoint, -, rfl⟩ := mem_one_mul_iff.mp hf
    obtain rfl : point = c := Option.some.inj h
    rw [beq_iff_eq.mp hpoint]
    rfl

theorem scanFraction_append {f e : Text} (hf : f ∈ 1 + fractions) (he : e ∈ 1 + exponents) :
    scanFraction (f ++ (e ++ rest)) = .ok (f.drop 1, e ++ rest) := by
  rcases mem_optional_iff.mp hf with rfl | hf
  · rw [List.nil_append, List.drop_nil, scanFraction]
    intro t ht
    exact (head?_exponent hrest he (by rw [ht]; rfl)).2 rfl
  · obtain ⟨point, digits, hpoint, hdigits, rfl⟩ := mem_one_mul_iff.mp hf
    obtain ⟨hne, hall⟩ := mem_digits_iff.mp hdigits
    obtain rfl := beq_iff_eq.mp hpoint
    exact scanDigits_append hne hall fun c hc => (head?_exponent hrest he hc).1

theorem scanExponent_append {e : Text} (he : e ∈ 1 + exponents) :
    ∃ x, scanExponent (e ++ rest) = .ok (x, rest) ∧ (x = none ↔ e = []) := by
  rcases mem_optional_iff.mp he with rfl | he
  · refine ⟨none, ?_, by simp⟩
    cases rest with
    | nil => rfl
    | cons c rest =>
      have hc := head?_of_stops hrest rfl
      show scanExponent (c :: rest) = _
      rw [scanExponent, if_neg (by simp [hc.2.2])]
  · obtain ⟨mark, behind, hmark, hbehind, rfl⟩ := mem_one_mul_iff.mp he
    obtain ⟨s, hs, digits, hdigits, rfl⟩ := Language.mem_mul.mp hbehind
    obtain ⟨hne, hall⟩ := mem_digits_iff.mp hdigits
    have hscan : scanDigits (digits ++ rest) = .ok (digits, rest) :=
      scanDigits_append hne hall fun c hc => (head?_of_stops hrest hc).1
    have hsign : (exponentSign (s ++ (digits ++ rest))).2 = digits ++ rest := by
      rcases mem_optional_iff.mp hs with rfl | ⟨sign, hsign, rfl⟩
      · cases digits with
        | nil => exact absurd rfl hne
        | cons d digits =>
          have hd := hall d List.mem_cons_self
          show (exponentSign (d :: (digits ++ rest))).2 = _
          unfold exponentSign
          split
          · simp_all
          · simp_all
          · rfl
      · rw [isSign, Bool.or_eq_true, beq_iff_eq, beq_iff_eq] at hsign
        rcases hsign with rfl | rfl <;> rfl
    refine ⟨some ((exponentSign (s ++ (digits ++ rest))).1, digits), ?_, by simp⟩
    rw [isExponentMark] at hmark
    rw [List.cons_append, List.append_assoc, scanExponent, if_pos hmark, hsign, hscan]

theorem scan_append {t : Text} (ht : t ∈ numerals) :
    ∃ n, scan (t ++ rest) = .ok (n, rest) ∧
      ((∀ c ∈ t, c.isDigit = true) ∧ n = ⟨false, t, [], none⟩ ∨
        (∃ c ∈ t, c.isDigit = false) ∧
          (n.negative = true ∨ n.fraction ≠ [] ∨ n.exponent ≠ none)) := by
  obtain ⟨s, hs, _, hbehind, rfl⟩ := Language.mem_mul.mp ht
  obtain ⟨w, hw, _, htail, rfl⟩ := Language.mem_mul.mp hbehind
  obtain ⟨f, hf, e, he, rfl⟩ := Language.mem_mul.mp htail
  obtain ⟨hne, hall, hzero⟩ := mem_wholes_iff.mp hw
  have hminus : minus (s ++ (w ++ (f ++ (e ++ rest)))) = (!s.isEmpty, w ++ (f ++ (e ++ rest))) := by
    rcases mem_optional_iff.mp hs with rfl | ⟨sign, hsign, rfl⟩
    · cases w with
      | nil => exact absurd rfl hne
      | cons d w =>
        have hd := hall d List.mem_cons_self
        show minus (d :: (w ++ (f ++ (e ++ rest)))) = _
        unfold minus
        split
        · simp_all
        · rfl
    · rw [beq_iff_eq.mp hsign]
      rfl
  obtain ⟨x, hexponent, hx⟩ := scanExponent_append hrest he
  refine ⟨⟨!s.isEmpty, w, f.drop 1, x⟩, ?_, ?_⟩
  · rw [List.append_assoc, List.append_assoc, List.append_assoc, scan, hminus]
    dsimp only
    rw [scanWhole_append hne hall (fun c hc => head?_fraction hrest hf he hc) hzero]
    dsimp only
    rw [scanFraction_append hrest hf he]
    dsimp only
    rw [hexponent]
  · rcases mem_optional_iff.mp hs with rfl | ⟨sign, hsign, rfl⟩
    · rcases mem_optional_iff.mp hf with rfl | hf
      · rcases mem_optional_iff.mp he with rfl | he
        · rw [List.nil_append, List.nil_append, List.append_nil, hx.mpr rfl]
          exact Or.inl ⟨hall, rfl⟩
        · obtain ⟨mark, behind, hmark, -, rfl⟩ := mem_one_mul_iff.mp he
          refine Or.inr ⟨⟨mark, by simp, ?_⟩, Or.inr (Or.inr fun h => ?_)⟩
          · exact (head?_exponent hrest (mem_optional_iff.mpr (Or.inr he)) rfl).1
          · exact absurd (hx.mp h) (List.cons_ne_nil _ _)
      · obtain ⟨point, digits, hpoint, hdigits, rfl⟩ := mem_one_mul_iff.mp hf
        refine Or.inr ⟨⟨point, by simp, ?_⟩, Or.inr (Or.inl (mem_digits_iff.mp hdigits).1)⟩
        rw [beq_iff_eq.mp hpoint]
        rfl
    · refine Or.inr ⟨⟨sign, by simp, ?_⟩, Or.inl rfl⟩
      rw [beq_iff_eq.mp hsign]
      rfl

end Scan

/-! ## The value of a numeral -/

theorem le_ofDigitChars (digits : Text) (m : Nat) : m ≤ Nat.ofDigitChars 10 digits m := by
  rw [Nat.ofDigitChars_eq_ofDigitChars_zero]
  have hpos : 0 < 10 ^ digits.length := Nat.pow_pos (by decide)
  exact Nat.le_trans (Nat.le_mul_of_pos_left m hpos) (Nat.le_add_right _ _)

theorem significand_eq {digits : Text} {m : Nat}
    (h : Nat.ofDigitChars 10 digits m < UInt64.size) :
    significand m digits = (Nat.ofDigitChars 10 digits m, 0) := by
  induction digits generalizing m with
  | nil => rfl
  | cons d digits ih =>
    rw [Nat.ofDigitChars_cons, Nat.mul_comm] at h ⊢
    have hnext : m * 10 + Text.digitValue d < UInt64.size :=
      Nat.lt_of_le_of_lt (le_ofDigitChars digits _) h
    rw [significand, if_pos hnext]
    exact ih h

/-- Digits of a number that is too large are left over. -/
theorem significand_left {digits : Text} {m : Nat} (hm : m < UInt64.size)
    (h : UInt64.size ≤ Nat.ofDigitChars 10 digits m) : (significand m digits).2 ≠ 0 := by
  induction digits generalizing m with
  | nil => exact absurd h (Nat.not_le.mpr hm)
  | cons d digits ih =>
    rw [Nat.ofDigitChars_cons, Nat.mul_comm] at h
    rw [significand]
    by_cases hnext : m * 10 + Text.digitValue d < UInt64.size
    · rw [if_pos hnext]
      exact ih hnext h
    · rw [if_neg hnext]
      exact Nat.succ_ne_zero _

theorem value_digits {digits : Text} (h : Nat.ofDigitChars 10 digits 0 < UInt64.size) :
    value ⟨false, digits, [], none⟩ = .ok (.natural (Nat.ofDigitChars 10 digits 0)) := by
  rw [value, significand_eq h]
  rfl

/-- A sign, a fraction, an exponent or digits that a word cannot hold make a number that is not a
natural one. -/
theorem value_ne_natural {n : Numeral}
    (h : n.negative = true ∨ n.fraction ≠ [] ∨ n.exponent ≠ none ∨ (significand 0 n.whole).2 ≠ 0)
    (k : Nat) : n.value ≠ .ok (.natural k) := by
  intro hv
  unfold value at hv
  dsimp only at hv
  split at hv
  · split at hv
    · split at hv
      · simp [signed] at hv
      · simp at hv
    · split at hv
      · simp [signed] at hv
      · simp at hv
  · rename_i hexponent
    split at hv
    · split at hv
      · simp [signed] at hv
      · simp at hv
    · rename_i hplain
      rw [Bool.or_eq_true, bne_iff_ne, not_or, not_not] at hplain
      have hnegative : n.negative = true := by
        rcases h with h | h | h | h
        · exact h
        · simp [h] at hplain
        · exact absurd hexponent h
        · exact absurd hplain.2 h
      rw [hnegative, if_neg (by decide)] at hv
      split at hv
      · simp at hv
      · split at hv
        · simp [signed] at hv
        · simp at hv

end Numeral

/-- A numeral is read up to its end, and gives a natural number exactly if it is the digits of one
that a word can hold. -/
theorem Number.read_append {t rest : Text} (ht : t ∈ numerals) (hrest : Numeral.stops rest = true) :
    ∃ number, Number.read (t ++ rest) = .ok (number, rest) ∧ ∀ k, number = .ok (.natural k) ↔
      (∀ c ∈ t, c.isDigit = true) ∧ Nat.ofDigitChars 10 t 0 = k ∧ k < UInt64.size := by
  obtain ⟨n, hscan, hparts⟩ := Numeral.scan_append hrest ht
  have hread : ∃ number, Number.read (t ++ rest) = .ok (number, rest) ∧
      ∀ k, number = .ok (.natural k) ↔ n.value = .ok (.natural k) := by
    rw [Number.read, hscan]
    dsimp only
    cases n.value with
    | ok number => exact ⟨_, rfl, by simp⟩
    | error unread => exact ⟨_, rfl, by simp⟩
  obtain ⟨number, hread, hnatural⟩ := hread
  refine ⟨number, hread, fun k => (hnatural k).trans ?_⟩
  rcases hparts with ⟨hdigits, rfl⟩ | ⟨⟨c, hc, hdigit⟩, hmore⟩
  · by_cases hsize : Nat.ofDigitChars 10 t 0 < UInt64.size
    · rw [Numeral.value_digits hsize, Except.ok.injEq, Number.natural.injEq]
      constructor
      · rintro rfl
        exact ⟨hdigits, rfl, hsize⟩
      · exact fun h => h.2.1
    · have hleft := Numeral.significand_left (by decide) (Nat.le_of_not_lt hsize)
      refine iff_of_false (Numeral.value_ne_natural (Or.inr (Or.inr (Or.inr hleft))) k) ?_
      rintro ⟨-, rfl, hk⟩
      exact hsize hk
  · refine iff_of_false (Numeral.value_ne_natural ?_ k) ?_
    · exact hmore.imp_right fun h => h.imp_right Or.inl
    · intro h
      have hall := h.1 c hc
      rw [hdigit] at hall
      exact absurd hall Bool.false_ne_true

end Json
end SketchPreview
