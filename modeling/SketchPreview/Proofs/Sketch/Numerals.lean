import SketchPreview.Proofs.Text.Languages
import SketchPreview.Proofs.Text.Trim
import SketchPreview.Sketch.Argument

/-!
The numeric literals of sketch code as regular languages, and the kinds of arguments by them.

`integers` and `numbers` are the languages.  The readers take the longest text of their language at
the front, and where they fail there is none, but for a number behind which the mark of an exponent
dangles: there the reader gives up for good (`read_longest`).  Something is left then, so a reader
takes a text as a whole exactly if the text is in its language, and `classify_languages` says of
every argument what kind it is.
-/

namespace SketchPreview
namespace Sketch
namespace Literal

open Text Computability

/-! ## The languages -/

def isHexMark (c : Char) : Bool := c == 'x' || c == 'X'

def isBinaryMark (c : Char) : Bool := c == 'b' || c == 'B'

def isLongMark (c : Char) : Bool := c == 'l' || c == 'L'

/-- Digits of a class, and underscores among them. -/
def spaced (digit : Char → Bool) (c : Char) : Bool := digit c || c == '_'

/-- A zero, the mark of a base, and digits of the base. -/
def based (mark digit : Char → Bool) : Language Char :=
  one (· == '0') * (one mark * (one digit * (one (spaced digit))∗))

def decimals : Language Char := one Char.isDigit * (one (spaced Char.isDigit))∗

def magnitudes : Language Char :=
  based isHexMark isHexDigit + based isBinaryMark isBinaryDigit + decimals

def integers : Language Char :=
  (1 + one isSign) * magnitudes * (1 + one isLongMark)

def mantissas : Language Char :=
  digits * (1 + one isPoint * (one Char.isDigit)∗) + one isPoint * digits

def numbers : Language Char := (1 + one isSign) * mantissas * (1 + exponents)

/-- Numbers without an exponent. -/
def unscaled : Language Char := (1 + one isSign) * mantissas

/-- The mark of an exponent and perhaps a sign, and no digit behind them. -/
def Dangling (t : Text) : Prop :=
  ∃ e s rest, t = e :: (s ++ rest) ∧ isExponentMark e = true ∧ s ∈ 1 + one isSign ∧
    ∀ c, rest.head? = some c → c.isDigit = false

/-- Whether a reader has given up for good, so that no other way of reading is to be tried. -/
def Fault.isFinal : Fault → Bool
  | .noExponent _ => true
  | .noDigit _ | .noNumber _ | .noFraction _ => false

/-! ## Integers -/

theorem longest_sign (t : Text) : Longest (1 + one isSign) t (sign t).1 (sign t).2 := by
  refine longest_optional_one ?_ ?_ t
  · intro c t hc
    rw [isSign, Bool.or_eq_true, beq_iff_eq, beq_iff_eq] at hc
    rcases hc with rfl | rfl <;> rfl
  · intro t h
    unfold sign
    split
    · exact absurd (h '+' rfl) (by decide)
    · exact absurd (h '-' rfl) (by decide)
    · rfl

theorem longest_suffix (t : Text) : Longest (1 + one isLongMark) t (suffix t).1 (suffix t).2 := by
  refine longest_optional_one ?_ ?_ t
  · intro c t hc
    rw [isLongMark, Bool.or_eq_true, beq_iff_eq, beq_iff_eq] at hc
    rcases hc with rfl | rfl <;> rfl
  · intro t h
    unfold suffix
    split
    · exact absurd (h 'l' rfl) (by decide)
    · exact absurd (h 'L' rfl) (by decide)
    · rfl

section Magnitude

variable {mark digit : Char → Bool} {x d : Char} {t w : Text}

theorem mem_based_iff : w ∈ based mark digit ↔ ∃ x d u, w = '0' :: x :: d :: u ∧ mark x = true ∧
    digit d = true ∧ ∀ c ∈ u, spaced digit c = true := by
  constructor
  · intro h
    obtain ⟨z, v, hz, hv, rfl⟩ := mem_one_mul_iff.mp h
    obtain ⟨x, y, hx, hy, rfl⟩ := mem_one_mul_iff.mp hv
    obtain ⟨d, u, hd, hu, rfl⟩ := mem_one_mul_iff.mp hy
    rw [beq_iff_eq.mp hz]
    exact ⟨x, d, u, rfl, hx, hd, mem_many_iff.mp hu⟩
  · rintro ⟨x, d, u, rfl, hx, hd, hu⟩
    exact mem_one_mul_iff.mpr ⟨'0', _, rfl, mem_one_mul_iff.mpr ⟨x, _, hx,
      mem_one_mul_iff.mpr ⟨d, u, hd, mem_many_iff.mpr hu, rfl⟩, rfl⟩, rfl⟩

theorem longest_based (hx : mark x = true) (hd : digit d = true) (t : Text) :
    Longest (based mark digit) ('0' :: x :: d :: t)
      (run ['0', x, d] (spaced digit) t).1 (run ['0', x, d] (spaced digit) t).2 :=
  .one_mul rfl (.one_mul hx (.one_mul hd (longest_many (spaced digit) t)))

theorem longest_decimals (hd : d.isDigit = true) (t : Text) :
    Longest decimals (d :: t) (run [d] (spaced Char.isDigit) t).1
      (run [d] (spaced Char.isDigit) t).2 :=
  .one_mul hd (longest_many (spaced Char.isDigit) t)

/-- Behind a zero and a letter there are no more decimal digits. -/
theorem length_le_of_mem_decimals (hw : w ∈ decimals) (hx : spaced Char.isDigit x = false)
    (hbegins : w <+: '0' :: x :: t) : w.length ≤ 1 := by
  obtain ⟨d, u, -, hu, rfl⟩ := mem_one_mul_iff.mp hw
  cases u with
  | nil => exact Nat.le_refl _
  | cons c u =>
    obtain ⟨rfl, -⟩ := List.cons_prefix_cons.mp (List.cons_prefix_cons.mp hbegins).2
    have hc := mem_many_iff.mp hu c List.mem_cons_self
    rw [hx] at hc
    exact absurd hc Bool.false_ne_true

theorem noneOf_based (h : ∀ x d u, t = '0' :: x :: d :: u → ¬ (mark x = true ∧ digit d = true)) :
    NoneOf (based mark digit) t := by
  rintro w hw ⟨v, rfl⟩
  obtain ⟨x, d, u, rfl, hx, hd, -⟩ := mem_based_iff.mp hw
  exact h x d (u ++ v) rfl ⟨hx, hd⟩

theorem noneOf_based_cons (h : ¬ (mark x = true ∧ digit d = true)) (t : Text) :
    NoneOf (based mark digit) ('0' :: x :: d :: t) := by
  refine noneOf_based ?_
  rintro y e u heq
  obtain ⟨-, rfl, rfl, -⟩ : '0' = '0' ∧ x = y ∧ d = e ∧ t = u := by simpa using heq
  exact h

end Magnitude

/-- The marks of the bases are different letters, and no digits. -/
theorem marks_apart {c : Char} : (isHexMark c = true → isBinaryMark c = false) ∧
    (isHexMark c = true ∨ isBinaryMark c = true → spaced Char.isDigit c = false) := by
  simp only [isHexMark, isBinaryMark, Bool.or_eq_true, beq_iff_eq]
  constructor
  · rintro (rfl | rfl) <;> rfl
  · rintro ((rfl | rfl) | rfl | rfl) <;> rfl

theorem answers_magnitude? (t : Text) : Answers magnitudes t (magnitude? t) := by
  unfold magnitude?
  split
  · -- A zero, and two characters that may begin another base.
    rename_i x d rest
    have hdecimals (front : Text) (hfront : 1 ≤ front.length)
        (hx : isHexMark x = true ∨ isBinaryMark x = true) :
        ∀ w ∈ decimals, w <+: '0' :: x :: d :: rest → w.length ≤ front.length :=
      fun w hw hbegins =>
        Nat.le_trans (length_le_of_mem_decimals hw (marks_apart.2 hx) hbegins) hfront
    split
    · rename_i hhex
      obtain ⟨hx, hd⟩ := Bool.and_eq_true_iff.mp hhex
      have hbinary : NoneOf (based isBinaryMark isBinaryDigit) ('0' :: x :: d :: rest) :=
        noneOf_based_cons (fun h => Bool.eq_false_iff.mp (marks_apart.1 hx) h.1) rest
      exact ((longest_based hx hd rest).add_left hbinary.length_le).add_left
        (hdecimals _ (Nat.le_add_left _ _) (Or.inl hx))
    · rename_i hhex
      have hhex : NoneOf (based isHexMark isHexDigit) ('0' :: x :: d :: rest) :=
        noneOf_based_cons (fun h => hhex (Bool.and_eq_true_iff.mpr h)) rest
      split
      · rename_i hbinary
        obtain ⟨hx, hd⟩ := Bool.and_eq_true_iff.mp hbinary
        exact ((longest_based hx hd rest).add_right hhex.length_le).add_left
          (hdecimals _ (Nat.le_add_left _ _) (Or.inr hx))
      · rename_i hbinary
        have hbinary : NoneOf (based isBinaryMark isBinaryDigit) ('0' :: x :: d :: rest) :=
          noneOf_based_cons (fun h => hbinary (Bool.and_eq_true_iff.mpr h)) rest
        exact (longest_decimals rfl (x :: d :: rest)).add_right (hhex.add hbinary).length_le
  · rename_i d rest hshape
    have hbased (mark digit : Char → Bool) : NoneOf (based mark digit) (d :: rest) := by
      refine noneOf_based ?_
      rintro x e u heq
      obtain ⟨rfl, rfl⟩ := List.cons.inj heq
      exact absurd rfl (hshape x e u rfl)
    split
    · rename_i hd
      exact (longest_decimals hd rest).add_right ((hbased _ _).add (hbased _ _)).length_le
    · rename_i hd
      refine ((hbased _ _).add (hbased _ _)).add (noneOf_one_mul ?_)
      intro c hc
      rw [← Option.some.inj hc]
      exact Bool.eq_false_iff.mpr hd
  · rw [magnitudes]
    refine (NoneOf.add ?_ ?_).add ?_ <;> exact noneOf_one_mul (by simp)

/-! What a reader goes on with is told from what it has read by its first character. -/

theorem isSign_of_mem_sign {t : Text} {c : Char} (hc : c ∈ (sign t).1) : isSign c = true := by
  rcases mem_optional_iff.mp (longest_sign t).mem with hnil | hone
  · rw [hnil] at hc
    exact absurd hc List.not_mem_nil
  · obtain ⟨d, hd, hsign⟩ := mem_one_iff.mp hone
    rw [hsign, List.mem_singleton] at hc
    rwa [hc]

/-- A sign is nothing that may follow it, and no mark. -/
theorem of_isSign {c : Char} (h : isSign c = true) : c.isDigit = false ∧ isPoint c = false ∧
    isExponentMark c = false ∧ isLongMark c = false := by
  rw [isSign, Bool.or_eq_true, beq_iff_eq, beq_iff_eq] at h
  rcases h with rfl | rfl <;> decide

theorem headIn_based {mark digit : Char → Bool} : HeadIn Char.isDigit (based mark digit) := by
  refine headIn_one_mul.mono ?_
  intro c hc
  rw [beq_iff_eq.mp hc]
  rfl

theorem headIn_magnitudes : HeadIn Char.isDigit magnitudes :=
  (headIn_based.add headIn_based).add headIn_one_mul

theorem not_mem_based {mark digit : Char → Bool} {c : Char} {w : Text} (hw : w ∈ based mark digit)
    (hzero : c ≠ '0') (hmark : mark c = false) (hdigit : spaced digit c = false) : c ∉ w := by
  obtain ⟨x, d, u, rfl, hx, hd, hu⟩ := mem_based_iff.mp hw
  have hd : spaced digit d = true := by rw [spaced, hd, Bool.true_or]
  intro hc
  simp only [List.mem_cons] at hc
  rcases hc with rfl | rfl | rfl | hc
  · exact hzero rfl
  · exact Bool.eq_false_iff.mp hmark hx
  · exact Bool.eq_false_iff.mp hdigit hd
  · exact Bool.eq_false_iff.mp hdigit (hu c hc)

theorem not_isLongMark_of_mem_magnitudes {c : Char} {w : Text} (hw : w ∈ magnitudes) (hc : c ∈ w) :
    isLongMark c = false := by
  rw [Bool.eq_false_iff]
  intro hlong
  have hclass : c = 'l' ∨ c = 'L' := by simpa [isLongMark] using hlong
  revert hc
  rcases (Language.mem_add _ _ _).mp hw with hw | hw
  · rcases (Language.mem_add _ _ _).mp hw with hw | hw
    · refine not_mem_based hw ?_ ?_ ?_ <;> rcases hclass with rfl | rfl <;> decide
    · refine not_mem_based hw ?_ ?_ ?_ <;> rcases hclass with rfl | rfl <;> decide
  · obtain ⟨d, u, hd, hu, rfl⟩ := mem_one_mul_iff.mp hw
    intro hc
    rcases List.mem_cons.mp hc with rfl | hc
    · rcases hclass with rfl | rfl <;> exact absurd hd (by decide)
    · have hspaced := mem_many_iff.mp hu c hc
      rcases hclass with rfl | rfl <;> exact absurd hspaced (by decide)

theorem integer_eq (t : Text) : integer t =
    match magnitude? (sign t).2 with
    | none => .error (.noDigit (sign t).1.length)
    | some (m, rest) => .ok ((sign t).1 ++ m ++ (suffix rest).1, (suffix rest).2) := rfl

theorem answers_integer (t : Text) : Answers integers t (integer t).toOption := by
  have hsign := longest_sign t
  have hmagnitude := answers_magnitude? (sign t).2
  have hapart : ∀ c ∈ (sign t).1, c.isDigit = false :=
    fun c hc => (of_isSign (isSign_of_mem_sign hc)).1
  rw [integer_eq]
  cases hread : magnitude? (sign t).2 with
  | none =>
    rw [hread] at hmagnitude
    exact (hsign.noneOf_mul hmagnitude headIn_magnitudes hapart).mul_right _
  | some read =>
    obtain ⟨m, rest⟩ := read
    rw [hread] at hmagnitude
    have hlong : ∀ c ∈ (sign t).1 ++ m, isLongMark c = false := by
      intro c hc
      rcases List.mem_append.mp hc with hc | hc
      · exact (of_isSign (isSign_of_mem_sign hc)).2.2.2
      · exact not_isLongMark_of_mem_magnitudes hmagnitude.mem hc
    exact (hsign.mul hmagnitude headIn_magnitudes hapart).mul (longest_suffix rest)
      headIn_one.optional hlong

/-! ## Decimal numbers -/

theorem answers_digits (t : Text) : Answers digits t
    (if t.takeWhile Char.isDigit = [] then none
      else some (t.takeWhile Char.isDigit, t.dropWhile Char.isDigit)) := by
  cases t with
  | nil => exact noneOf_one_mul (by simp)
  | cons c t =>
    by_cases hc : c.isDigit = true
    · rw [List.takeWhile_cons_of_pos hc, List.dropWhile_cons_of_pos hc,
        if_neg (List.cons_ne_nil _ _)]
      exact Longest.one_mul hc (longest_many Char.isDigit t)
    · rw [List.takeWhile_cons_of_neg hc, if_pos rfl]
      refine noneOf_one_mul ?_
      intro d hd
      rw [← Option.some.inj hd]
      exact Bool.eq_false_iff.mpr hc

theorem noneOf_digits {t : Text} (h : t.takeWhile Char.isDigit = []) : NoneOf digits t := by
  have hanswers := answers_digits t
  rwa [if_pos h] at hanswers

theorem longest_digits {t : Text} (h : t.takeWhile Char.isDigit ≠ []) :
    Longest digits t (t.takeWhile Char.isDigit) (t.dropWhile Char.isDigit) := by
  have hanswers := answers_digits t
  rwa [if_neg h] at hanswers

theorem of_isDigit {c : Char} (h : c.isDigit = true) :
    isPoint c = false ∧ isExponentMark c = false := by
  simp only [Bool.eq_false_iff, isPoint, isExponentMark, ne_eq, Bool.or_eq_true, beq_iff_eq]
  constructor
  · rintro rfl
    exact absurd h (by decide)
  · rintro (rfl | rfl) <;> exact absurd h (by decide)

theorem answers_mantissa (offset : Nat) (t : Text) :
    Answers mantissas t (mantissa offset t).toOption := by
  unfold mantissa
  split
  · rename_i rest
    have hwhole : NoneOf (digits * (1 + one isPoint * (one Char.isDigit)∗)) ('.' :: rest) :=
      (noneOf_one_mul (by simp)).mul_right _
    split
    · rename_i hnone
      exact hwhole.add (noneOf_digits hnone).one_mul
    · rename_i hsome
      exact (Longest.one_mul rfl (longest_digits hsome)).add_right hwhole.length_le
  · rename_i hpoint
    have hfraction : NoneOf (one isPoint * digits) t := by
      refine noneOf_one_mul ?_
      intro c hc
      obtain ⟨rest, rfl⟩ := List.head?_eq_some_iff.mp hc
      exact beq_false_of_ne fun heq => hpoint rest (by rw [heq])
    have hapart : ∀ c ∈ t.takeWhile Char.isDigit, isPoint c = false :=
      fun c hc => (of_isDigit (List.all_eq_true.mp List.all_takeWhile c hc)).1
    split
    · rename_i hnone
      exact ((noneOf_digits hnone).mul_right _).add hfraction
    · rename_i rest hrest hsome
      have hdigits := longest_digits hsome
      rw [hrest] at hdigits
      have htail : Longest (1 + one isPoint * (one Char.isDigit)∗) ('.' :: rest)
          ('.' :: rest.takeWhile Char.isDigit) (rest.dropWhile Char.isDigit) :=
        (Longest.one_mul rfl (longest_many Char.isDigit rest)).optional
      have hwhole := hdigits.mul htail headIn_one_mul.optional hapart
      rw [← List.singleton_append, ← List.append_assoc] at hwhole
      exact hwhole.add_left hfraction.length_le
    · rename_i hsome hend
      have htail : NoneOf (one isPoint * (one Char.isDigit)∗) (t.dropWhile Char.isDigit) := by
        refine noneOf_one_mul ?_
        intro c hc
        obtain ⟨rest, hrest⟩ := List.head?_eq_some_iff.mp hc
        exact beq_false_of_ne fun heq => hend rest (by rw [hrest, heq])
      have hwhole := (longest_digits hsome).mul htail.optional headIn_one_mul.optional hapart
      rw [List.append_nil] at hwhole
      exact hwhole.add_left hfraction.length_le

theorem headIn_mantissas : HeadIn (fun c => c.isDigit || isPoint c) mantissas := by
  have hdigits : HeadIn Char.isDigit (digits * (1 + one isPoint * (one Char.isDigit)∗)) := by
    rw [digits, mul_assoc]
    exact headIn_one_mul
  refine (hdigits.mono ?_).add (headIn_one_mul.mono ?_)
  · intro c hc
    rw [hc, Bool.true_or]
  · intro c hc
    rw [hc, Bool.or_true]

theorem not_isExponentMark_of_mem_mantissas {w : Text} (hw : w ∈ mantissas) :
    ∀ c ∈ w, isExponentMark c = false := by
  have hdigits : ∀ {u : Text}, (∀ c ∈ u, c.isDigit = true) → ∀ c ∈ u, isExponentMark c = false :=
    fun hu c hc => (of_isDigit (hu c hc)).2
  have hpoint : ∀ {c : Char}, isPoint c = true → isExponentMark c = false := by
    intro c hc
    rw [beq_iff_eq.mp hc]
    rfl
  rcases (Language.mem_add _ _ _).mp hw with hw | hw
  · obtain ⟨whole, hwhole, tail, htail, rfl⟩ := Language.mem_mul.mp hw
    refine List.forall_mem_append.mpr ⟨hdigits (mem_digits_iff.mp hwhole).2, ?_⟩
    rcases mem_optional_iff.mp htail with rfl | htail
    · simp
    · obtain ⟨c, fraction, hc, hfraction, rfl⟩ := mem_one_mul_iff.mp htail
      exact List.forall_mem_cons.mpr ⟨hpoint hc, hdigits (mem_many_iff.mp hfraction)⟩
  · obtain ⟨c, fraction, hc, hfraction, rfl⟩ := mem_one_mul_iff.mp hw
    exact List.forall_mem_cons.mpr ⟨hpoint hc, hdigits (mem_digits_iff.mp hfraction).2⟩

theorem exponent_of_mark {e : Char} (he : isExponentMark e = true) (offset : Nat) (t : Text) :
    exponent offset (e :: t) =
      if (sign t).2.takeWhile Char.isDigit = [] then
        .error (.noExponent (offset + 1 + (sign t).1.length))
      else
        .ok (e :: (sign t).1 ++ (sign t).2.takeWhile Char.isDigit,
          (sign t).2.dropWhile Char.isDigit) := by
  rw [isExponentMark] at he
  rw [exponent, if_pos he]
  dsimp only
  split
  · rename_i hnone
    rw [if_pos hnone]
  · rename_i hsome
    rw [if_neg hsome]

theorem exponent_of_no_mark {t : Text} (h : ∀ c, t.head? = some c → isExponentMark c = false)
    (offset : Nat) : exponent offset t = .ok ([], t) := by
  cases t with
  | nil => rfl
  | cons e t =>
    have he := h e rfl
    rw [isExponentMark] at he
    rw [exponent, he, if_neg Bool.false_ne_true]

theorem dangling_of_mark {e : Char} {t : Text} (he : isExponentMark e = true)
    (hnone : (sign t).2.takeWhile Char.isDigit = []) : Dangling (e :: t) := by
  have hsign := longest_sign t
  refine ⟨e, (sign t).1, (sign t).2, by rw [← hsign.text], he, hsign.mem, ?_⟩
  intro c hc
  obtain ⟨rest, hrest⟩ := List.head?_eq_some_iff.mp hc
  rw [hrest] at hnone
  rw [Bool.eq_false_iff]
  intro hdigit
  simp [hdigit] at hnone

theorem Dangling.exists_mark {t : Text} (h : Dangling t) :
    ∃ e, t.head? = some e ∧ isExponentMark e = true := by
  obtain ⟨e, s, rest, rfl, he, -⟩ := h
  exact ⟨e, rfl, he⟩

/-- Where no mark stands in front there is no exponent; behind a mark one is read, or nothing is,
and then the mark dangles. -/
theorem exponent_cases (offset : Nat) (t : Text) :
    (exponent offset t = .ok ([], t) ∧ ¬ Dangling t ∧ NoneOf exponents t) ∨
    (∃ front rest, exponent offset t = .ok (front, rest) ∧ Longest exponents t front rest) ∨
    ∃ place, exponent offset t = .error (.noExponent place) ∧ Dangling t ∧
      NoneOf exponents t := by
  by_cases hmark : ∃ e, t.head? = some e ∧ isExponentMark e = true
  · obtain ⟨e, hhead, he⟩ := hmark
    obtain ⟨rest, rfl⟩ := List.head?_eq_some_iff.mp hhead
    have hapart : ∀ c ∈ (sign rest).1, c.isDigit = false :=
      fun c hc => (of_isSign (isSign_of_mem_sign hc)).1
    rw [exponent_of_mark he]
    by_cases hnone : (sign rest).2.takeWhile Char.isDigit = []
    · rw [if_pos hnone]
      refine Or.inr (Or.inr ⟨_, rfl, dangling_of_mark he hnone, NoneOf.one_mul ?_⟩)
      exact (longest_sign rest).noneOf_mul (noneOf_digits hnone) headIn_one_mul hapart
    · rw [if_neg hnone]
      refine Or.inr (Or.inl ⟨_, _, rfl, Longest.one_mul he ?_⟩)
      exact (longest_sign rest).mul (longest_digits hnone) headIn_one_mul hapart
  · have hnone : ∀ c, t.head? = some c → isExponentMark c = false :=
      fun c hc => Bool.eq_false_iff.mpr fun he => hmark ⟨c, hc, he⟩
    exact Or.inl ⟨exponent_of_no_mark hnone offset, mt Dangling.exists_mark hmark,
      noneOf_one_mul hnone⟩

theorem isFinal_of_mantissa {offset : Nat} {t : Text} {fault : Fault}
    (h : mantissa offset t = .error fault) : fault.isFinal = false := by
  unfold mantissa at h
  split at h
  · split at h
    · rw [← Except.error.inj h]
      rfl
    · simp at h
  · split at h
    · rw [← Except.error.inj h]
      rfl
    · simp at h
    · simp at h

theorem number_eq (t : Text) : number t =
    match mantissa (sign t).1.length (sign t).2 with
    | .error fault => .error fault
    | .ok (m, behind) =>
      match exponent ((sign t).1.length + m.length) behind with
      | .error fault => .error fault
      | .ok (e, rest) => .ok ((sign t).1 ++ m ++ e, rest) := by
  cases hsign : sign t with
  | mk s signless =>
    simp only [number, hsign]
    cases mantissa s.length signless with
    | error fault => rfl
    | ok read =>
      show (exponent (s.length + read.1.length) read.2 >>= _) = _
      dsimp only
      cases exponent (s.length + read.1.length) read.2 with
      | error fault => rfl
      | ok read => rfl

/-- A number is read where there is one.  Only where the mark of an exponent dangles behind it the
reader fails, and for good, although there is one. -/
theorem number_cases (t : Text) :
    (∃ front rest, number t = .ok (front, rest) ∧ Longest numbers t front rest ∧
      ¬ (front ∈ unscaled ∧ Dangling rest)) ∨
    (∃ fault, number t = .error fault ∧ fault.isFinal = false ∧ NoneOf numbers t) ∨
    ∃ place front rest, number t = .error (.noExponent place) ∧ Longest numbers t front rest ∧
      front ∈ unscaled ∧ Dangling rest := by
  have hsign := longest_sign t
  have hmantissa := answers_mantissa (sign t).1.length (sign t).2
  have hapart : ∀ c ∈ (sign t).1, (c.isDigit || isPoint c) = false := by
    intro c hc
    obtain ⟨hdigit, hpoint, -⟩ := of_isSign (isSign_of_mem_sign hc)
    rw [hdigit, hpoint, Bool.false_or]
  rw [number_eq]
  cases hm : mantissa (sign t).1.length (sign t).2 with
  | error fault =>
    rw [hm] at hmantissa
    refine Or.inr (Or.inl ⟨fault, rfl, isFinal_of_mantissa hm, ?_⟩)
    exact (hsign.noneOf_mul hmantissa headIn_mantissas hapart).mul_right _
  | ok read =>
    obtain ⟨m, behind⟩ := read
    rw [hm] at hmantissa
    have hlongest : Longest unscaled t ((sign t).1 ++ m) behind :=
      hsign.mul hmantissa headIn_mantissas hapart
    have hmark : ∀ c ∈ (sign t).1 ++ m, isExponentMark c = false := by
      intro c hc
      rcases List.mem_append.mp hc with hc | hc
      · exact (of_isSign (isSign_of_mem_sign hc)).2.2.1
      · exact not_isExponentMark_of_mem_mantissas (Longest.mem hmantissa) c hc
    have hwhole {front rest : Text} (hfront : Longest (1 + exponents) behind front rest) :
        Longest numbers t ((sign t).1 ++ m ++ front) rest :=
      hlongest.mul hfront headIn_one_mul.optional hmark
    dsimp only
    rcases exponent_cases ((sign t).1.length + m.length) behind with
      ⟨hexponent, hdangling, hnone⟩ | ⟨front, rest, hexponent, hfront⟩ |
      ⟨place, hexponent, hdangling, hnone⟩
    · rw [hexponent]
      exact Or.inl ⟨_, _, rfl, hwhole hnone.optional, fun h => hdangling h.2⟩
    · rw [hexponent]
      refine Or.inl ⟨_, _, rfl, hwhole hfront.optional, ?_⟩
      rintro ⟨hunscaled, -⟩
      -- What was read with an exponent is longer than the longest number without one.
      have hlength := hlongest.length_le _ hunscaled ⟨rest, (hwhole hfront.optional).text.symm⟩
      rw [List.length_append] at hlength
      have hnil : front = [] := List.eq_nil_of_length_eq_zero (by omega)
      exact nil_not_mem_one_mul (hnil ▸ hfront.mem)
    · rw [hexponent]
      have hread := hwhole hnone.optional
      rw [List.append_nil] at hread
      exact Or.inr (Or.inr ⟨place, _, behind, rfl, hread, hlongest.mem, hdangling⟩)

/-- Both readers take the longest text of their language at the front, and fail where there is none.
Only the reader of numbers fails elsewhere, and for good: where the longest has no exponent and the
mark of one dangles behind it. -/
theorem read_longest (t : Text) :
    (∀ front rest, integer t = .ok (front, rest) ↔ Longest integers t front rest) ∧
    ((∃ fault, integer t = .error fault) ↔ NoneOf integers t) ∧
    (∀ front rest, number t = .ok (front, rest) ↔
      Longest numbers t front rest ∧ ¬ (front ∈ unscaled ∧ Dangling rest)) ∧
    ((∃ fault, number t = .error fault ∧ fault.isFinal = true) ↔
      ∃ front rest, Longest numbers t front rest ∧ front ∈ unscaled ∧ Dangling rest) ∧
    ((∃ fault, number t = .error fault ∧ fault.isFinal = false) ↔ NoneOf numbers t) := by
  refine ⟨?_, ?_, ?_⟩
  · intro front rest
    rw [← (answers_integer t).eq_some_iff]
    cases integer t <;> simp [Except.toOption]
  · rw [← (answers_integer t).eq_none_iff]
    cases integer t <;> simp [Except.toOption]
  · rcases number_cases t with ⟨front, rest, hread, hlongest, hdangling⟩ |
      ⟨fault, hread, hfinal, hnone⟩ | ⟨place, front, rest, hread, hlongest, hunscaled, hdangling⟩
    · rw [hread]
      refine ⟨?_, iff_of_false (by simp) ?_, iff_of_false (by simp) hlongest.not_noneOf⟩
      · intro front' rest'
        constructor
        · rintro ⟨⟩
          exact ⟨hlongest, hdangling⟩
        · rintro ⟨hlongest', -⟩
          obtain ⟨rfl, rfl⟩ := hlongest.unique hlongest'
          rfl
      · rintro ⟨front', rest', hlongest', hdangling'⟩
        obtain ⟨rfl, rfl⟩ := hlongest.unique hlongest'
        exact hdangling hdangling'
    · rw [hread]
      refine ⟨?_, iff_of_false (by simp [hfinal]) ?_, iff_of_true ⟨fault, rfl, hfinal⟩ hnone⟩
      · intro front rest
        exact iff_of_false (by simp) fun h => h.1.not_noneOf hnone
      · rintro ⟨front, rest, hlongest, -⟩
        exact hlongest.not_noneOf hnone
    · rw [hread]
      refine ⟨?_, iff_of_true ⟨_, rfl, rfl⟩ ⟨front, rest, hlongest, hunscaled, hdangling⟩,
        iff_of_false (by simp [Fault.isFinal]) hlongest.not_noneOf⟩
      intro front' rest'
      refine iff_of_false (by simp) ?_
      rintro ⟨hlongest', hdangling'⟩
      obtain ⟨rfl, rfl⟩ := hlongest.unique hlongest'
      exact hdangling' ⟨hunscaled, hdangling⟩

example : integer "0x_1".toList = .ok ("0".toList, "x_1".toList) := by decide

example : number "1.e+x".toList = .error (.noExponent 4) := by decide

/-! ## Whole texts -/

theorem isWhole_iff {read : Text → Except Fault (Text × Text)} {t : Text} :
    isWhole read t = true ↔ ∃ front, read t = .ok (front, []) := by
  rw [isWhole]
  split
  · rename_i front h
    simp [h]
  · rename_i h
    simp only [Bool.false_eq_true, false_iff, not_exists]
    exact h

theorem isWhole_integer_iff {t : Text} : isWhole integer t = true ↔ t ∈ integers := by
  rw [isWhole_iff, (answers_integer t).mem_iff]
  cases integer t with
  | error fault => simp [Except.toOption]
  | ok read => simp [Except.toOption]

theorem isWhole_number_iff {t : Text} : isWhole number t = true ↔ t ∈ numbers := by
  rw [isWhole_iff]
  rcases number_cases t with ⟨front, rest, hread, hlongest, -⟩ | ⟨fault, hread, -, hnone⟩ |
    ⟨place, front, rest, hread, hlongest, -, hdangling⟩
  · rw [hread, hlongest.mem_iff]
    simp
  · rw [hread]
    simp [hnone.not_mem]
  · obtain ⟨e, hhead, -⟩ := hdangling.exists_mark
    have hne : rest ≠ [] := by
      rintro rfl
      simp at hhead
    rw [hread, hlongest.mem_iff]
    simp [hne]

end Literal

/-! ## The kinds of arguments -/

namespace Argument

open Literal Text

/-- Neither no text nor the token for all displays is a numeral. -/
theorem not_isNumeral {t : Text} (h : t = [] ∨ t = "SPAN".toList) :
    ¬ (isWhole integer t = true ∨ isWhole number t = true) := by
  rcases h with rfl | rfl <;> decide

section Order

variable (blank numeral span : Prop) [Decidable blank] [Decidable numeral] [Decidable span]

/-- The kind that is found when the questions are asked in their order. -/
def kindOf : Kind :=
  if blank then .blank else if numeral then .displayIndex else if span then .fullSpan else .renderer

variable {blank numeral span}

/-- Where a text never has two of the properties, their order does not matter. -/
theorem kindOf_iff (hnumeral : blank ∨ span → ¬ numeral) (hspan : blank → ¬ span) :
    (kindOf blank numeral span = .blank ↔ blank) ∧
    (kindOf blank numeral span = .displayIndex ↔ numeral) ∧
    (kindOf blank numeral span = .fullSpan ↔ span) ∧
    (kindOf blank numeral span = .renderer ↔ ¬ blank ∧ ¬ numeral ∧ ¬ span) := by
  unfold kindOf
  by_cases hb : blank
  · simp [hb, hnumeral (Or.inl hb), hspan hb]
  by_cases hs : span
  · simp [hb, hs, hnumeral (Or.inr hs)]
  · by_cases hn : numeral <;> simp [hb, hs, hn]

end Order

theorem classify_eq (token : Text) : classify token = kindOf (trim token = [])
    (isWhole integer (trim token) = true ∨ isWhole number (trim token) = true)
    (trim token = "SPAN".toList) := by
  simp only [classify, kindOf, List.isEmpty_iff, Bool.or_eq_true, beq_iff_eq, fullSpanToken]

/-- The kind of an argument depends on what stands between the white space around it: nothing, a
numeral of either language, the token for all displays, or any other text. -/
theorem classify_languages (token : Text) :
    (∃ before after, token = before ++ trim token ++ after ∧ (∀ c ∈ before, isBlank c = true) ∧
      (∀ c ∈ after, isBlank c = true) ∧ (∀ c, (trim token).head? = some c → isBlank c = false) ∧
      ∀ c, (trim token).getLast? = some c → isBlank c = false) ∧
    (classify token = .blank ↔ trim token = []) ∧
    (classify token = .displayIndex ↔ trim token ∈ integers ∨ trim token ∈ numbers) ∧
    (classify token = .fullSpan ↔ trim token = "SPAN".toList) ∧
    (classify token = .renderer ↔ trim token ≠ [] ∧
      ¬ (trim token ∈ integers ∨ trim token ∈ numbers) ∧ trim token ≠ "SPAN".toList) := by
  obtain ⟨before, after, htoken, hbefore, hafter⟩ := exists_append_strip isBlank token
  refine ⟨⟨before, after, htoken, hbefore, hafter, fun c => of_head?_strip,
    fun c => of_getLast?_strip⟩, ?_⟩
  rw [← isWhole_integer_iff, ← isWhole_number_iff, classify_eq]
  refine kindOf_iff not_isNumeral ?_
  intro hblank
  rw [hblank]
  decide

end Argument
end Sketch
end SketchPreview
