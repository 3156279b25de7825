import Mathlib.Computability.Language
import SketchPreview.Text.Basic

/-!
Languages built from classes of characters, and readers that take the longest text of one.

`Longest L t front rest` says that `front` is the longest text of `L` that `t` begins with.  A
reader that never goes back is right about a product of languages when no text of the second can
begin with a character of what was read for the first: `Longest.mul`.  `Longest.one_mul`,
`Longest.add_left` and `Longest.optional` are the other ways to put readers together, and
`longest_many` is what `takeWhile` does.
-/

namespace SketchPreview
namespace Text

open Computability

/-! ## Languages of classes -/

/-- The texts of a single character of a class. -/
def one (p : Char → Bool) : Language Char := {t | ∃ c, p c = true ∧ t = [c]}

section Members

variable {p : Char → Bool} {L M : Language Char} {t : Text}

theorem mem_one_iff : t ∈ one p ↔ ∃ c, p c = true ∧ t = [c] := Iff.rfl

theorem mem_one_mul_iff : t ∈ one p * L ↔ ∃ c rest, p c = true ∧ rest ∈ L ∧ t = c :: rest := by
  rw [Language.mem_mul]
  constructor
  · rintro ⟨-, ⟨c, hc, rfl⟩, rest, hrest, rfl⟩
    exact ⟨c, rest, hc, hrest, rfl⟩
  · rintro ⟨c, rest, hc, hrest, rfl⟩
    exact ⟨[c], ⟨c, hc, rfl⟩, rest, hrest, rfl⟩

theorem mem_optional_iff : t ∈ 1 + L ↔ t = [] ∨ t ∈ L := by
  rw [Language.mem_add, Language.mem_one]

theorem mem_many_iff : t ∈ (one p)∗ ↔ ∀ c ∈ t, p c = true := by
  rw [Language.mem_kstar]
  constructor
  · rintro ⟨parts, rfl, hparts⟩ c hc
    obtain ⟨part, hpart, hc⟩ := List.mem_flatten.mp hc
    obtain ⟨d, hd, rfl⟩ := hparts part hpart
    rwa [List.mem_singleton.mp hc]
  · intro h
    refine ⟨t.map ([·]), ?_, ?_⟩
    · rw [← List.flatMap_def, List.flatMap_singleton']
    · intro part hpart
      obtain ⟨c, hc, rfl⟩ := List.mem_map.mp hpart
      exact ⟨c, h c hc, rfl⟩

end Members

/-! ## Parts of numerals -/

def isSign (c : Char) : Bool := c == '+' || c == '-'

def isPoint (c : Char) : Bool := c == '.'

def isExponentMark (c : Char) : Bool := c == 'e' || c == 'E'

def digits : Language Char := one Char.isDigit * (one Char.isDigit)∗

def exponents : Language Char := one isExponentMark * ((1 + one isSign) * digits)

theorem mem_digits_iff {w : Text} :
    w ∈ digits ↔ w ≠ [] ∧ ∀ c ∈ w, c.isDigit = true := by
  constructor
  · intro h
    obtain ⟨c, rest, hc, hrest, rfl⟩ := mem_one_mul_iff.mp h
    exact ⟨List.cons_ne_nil c rest, List.forall_mem_cons.mpr ⟨hc, mem_many_iff.mp hrest⟩⟩
  · rintro ⟨hne, hall⟩
    cases w with
    | nil => exact absurd rfl hne
    | cons c rest =>
      obtain ⟨hc, hrest⟩ := List.forall_mem_cons.mp hall
      exact mem_one_mul_iff.mpr ⟨c, rest, hc, mem_many_iff.mpr hrest, rfl⟩

/-! ## The longest text at the front -/

/-- No text of a language stands at the front of a text. -/
def NoneOf (L : Language Char) (t : Text) : Prop := ∀ w ∈ L, ¬ w <+: t

/-- `front` is the longest text of a language that stands at the front of a text, and `rest` is what
follows it. -/
structure Longest (L : Language Char) (t front rest : Text) : Prop where
  text : t = front ++ rest
  mem : front ∈ L
  length_le : ∀ w ∈ L, w <+: t → w.length ≤ front.length

/-- What a reader of a language says of a text: the longest text at the front and what follows it,
or nothing where no text of the language stands at the front. -/
def Answers (L : Language Char) (t : Text) : Option (Text × Text) → Prop
  | some (front, rest) => Longest L t front rest
  | none => NoneOf L t

/-- A language whose texts are empty or begin with a character of a class. -/
def HeadIn (p : Char → Bool) (L : Language Char) : Prop :=
  ∀ w ∈ L, ∀ c, w.head? = some c → p c = true

section Longest

variable {p : Char → Bool} {L M : Language Char} {t u front rest back : Text}

theorem Longest.mem_iff (h : Longest L t front rest) : t ∈ L ↔ rest = [] := by
  constructor
  · intro ht
    have hlength := h.length_le t ht List.prefix_rfl
    rw [h.text, List.length_append] at hlength
    exact List.eq_nil_of_length_eq_zero (by omega)
  · intro hrest
    rw [h.text, hrest, List.append_nil]
    exact h.mem

theorem NoneOf.not_mem (h : NoneOf L t) : t ∉ L := fun ht => h t ht List.prefix_rfl

theorem Longest.not_noneOf (h : Longest L t front rest) : ¬ NoneOf L t :=
  fun hnone => hnone front h.mem ⟨rest, h.text.symm⟩

theorem Longest.unique {front' rest' : Text} (h : Longest L t front rest)
    (h' : Longest L t front' rest') : front = front' ∧ rest = rest' := by
  have hle := h'.length_le front h.mem ⟨rest, h.text.symm⟩
  have hge := h.length_le front' h'.mem ⟨rest', h'.text.symm⟩
  exact List.append_inj (h.text.symm.trans h'.text) (Nat.le_antisymm hle hge)

theorem noneOf_of_headIn (hL : HeadIn p L) (hnil : [] ∉ L)
    (h : ∀ c, t.head? = some c → p c = false) : NoneOf L t := by
  rintro w hw ⟨v, rfl⟩
  cases w with
  | nil => exact hnil hw
  | cons c w =>
    have hc := hL (c :: w) hw c rfl
    rw [h c rfl] at hc
    exact absurd hc Bool.false_ne_true

theorem headIn_one_mul : HeadIn p (one p * L) := by
  intro w hw c hc
  obtain ⟨d, rest, hd, -, rfl⟩ := mem_one_mul_iff.mp hw
  obtain rfl : d = c := Option.some.inj hc
  exact hd

theorem nil_not_mem_one_mul : [] ∉ one p * L := by
  intro h
  obtain ⟨c, rest, -, -, hnil⟩ := mem_one_mul_iff.mp h
  exact List.cons_ne_nil c rest hnil.symm

theorem Answers.eq_some_iff {answer : Option (Text × Text)} (h : Answers L t answer) :
    answer = some (front, rest) ↔ Longest L t front rest := by
  cases answer with
  | none =>
    simp only [reduceCtorEq, false_iff]
    intro hlongest
    exact hlongest.not_noneOf h
  | some read =>
    rw [Option.some.injEq, Prod.ext_iff]
    constructor
    · rintro ⟨rfl, rfl⟩
      exact h
    · exact Longest.unique h

theorem Answers.eq_none_iff {answer : Option (Text × Text)} (h : Answers L t answer) :
    answer = none ↔ NoneOf L t := by
  cases answer with
  | none => exact iff_of_true rfl h
  | some read => exact iff_of_false (Option.some_ne_none read) (Longest.not_noneOf h)

/-- A reader takes a text as a whole exactly if the text is in its language. -/
theorem Answers.mem_iff {answer : Option (Text × Text)} (h : Answers L t answer) :
    t ∈ L ↔ ∃ front, answer = some (front, []) := by
  cases answer with
  | none => simpa using NoneOf.not_mem h
  | some read =>
    rw [Longest.mem_iff h]
    simp [Prod.ext_iff]

/-- Where no character of the class stands in front, nothing that begins with one does. -/
theorem noneOf_one_mul (h : ∀ c, t.head? = some c → p c = false) : NoneOf (one p * L) t :=
  noneOf_of_headIn headIn_one_mul nil_not_mem_one_mul h

theorem noneOf_one (h : ∀ c, t.head? = some c → p c = false) : NoneOf (one p) t := by
  rw [← mul_one (one p)]
  exact noneOf_one_mul h

theorem NoneOf.one_mul {c : Char} (h : NoneOf L t) : NoneOf (one p * L) (c :: t) := by
  intro w hw hbegins
  obtain ⟨d, v, -, hv, rfl⟩ := mem_one_mul_iff.mp hw
  exact h v hv (List.cons_prefix_cons.mp hbegins).2

theorem NoneOf.mul_right (h : NoneOf L t) (M : Language Char) : NoneOf (L * M) t := by
  intro w hw hbegins
  obtain ⟨x, hx, y, -, rfl⟩ := Language.mem_mul.mp hw
  exact h x hx ((List.prefix_append x y).trans hbegins)

theorem headIn_one : HeadIn p (one p) := by
  rw [← mul_one (one p)]
  exact headIn_one_mul

theorem HeadIn.mono {q : Char → Bool} (h : HeadIn p L) (hpq : ∀ c, p c = true → q c = true) :
    HeadIn q L :=
  fun w hw c hc => hpq c (h w hw c hc)

theorem HeadIn.add (hL : HeadIn p L) (hM : HeadIn p M) : HeadIn p (L + M) := by
  intro w hw
  rcases (Language.mem_add L M w).mp hw with hw | hw
  · exact hL w hw
  · exact hM w hw

theorem HeadIn.optional (h : HeadIn p L) : HeadIn p (1 + L) := by
  intro w hw c hc
  rcases mem_optional_iff.mp hw with rfl | hw
  · simp at hc
  · exact h w hw c hc

theorem longest_many (p : Char → Bool) (t : Text) :
    Longest (one p)∗ t (t.takeWhile p) (t.dropWhile p) where
  text := List.takeWhile_append_dropWhile.symm
  mem := mem_many_iff.mpr fun c hc => List.all_eq_true.mp List.all_takeWhile c hc
  length_le := by
    rintro w hw ⟨rest, rfl⟩
    rw [List.takeWhile_append_of_pos (mem_many_iff.mp hw), List.length_append]
    exact Nat.le_add_right _ _

theorem Longest.one_mul {c : Char} (hc : p c = true) (h : Longest L t front rest) :
    Longest (one p * L) (c :: t) (c :: front) rest where
  text := by rw [h.text, List.cons_append]
  mem := mem_one_mul_iff.mpr ⟨c, front, hc, h.mem, rfl⟩
  length_le := by
    intro w hw hfront
    obtain ⟨d, v, -, hv, rfl⟩ := mem_one_mul_iff.mp hw
    exact Nat.succ_le_succ (h.length_le v hv (List.cons_prefix_cons.mp hfront).2)

theorem longest_one {c : Char} (hc : p c = true) (t : Text) : Longest (one p) (c :: t) [c] t := by
  rw [← mul_one (one p)]
  refine Longest.one_mul hc ⟨rfl, Language.nil_mem_one, ?_⟩
  intro w hw _
  rw [(Language.mem_one w).mp hw]

/-- What stands at the front of a product ends with a text of the first language, or goes on behind
the longest one.  A shorter one is followed by what was read for the first language, where no text
of the second begins. -/
theorem Longest.of_append_prefix (hL : Longest L t front u) (hp : HeadIn p M)
    (hfront : ∀ c ∈ front, p c = false) {x y : Text} (hx : x ∈ L) (hy : y ∈ M)
    (hbegins : x ++ y <+: t) : y = [] ∧ x.length ≤ front.length ∨ x = front ∧ y <+: u := by
  have hxt : x <+: t := (List.prefix_append x y).trans hbegins
  have hlength := hL.length_le x hx hxt
  obtain ⟨left, rfl⟩ : x <+: front :=
    List.prefix_of_prefix_length_le hxt ⟨u, hL.text.symm⟩ hlength
  rw [hL.text, List.append_assoc, List.prefix_append_right_inj] at hbegins
  cases y with
  | nil => exact Or.inl ⟨rfl, hlength⟩
  | cons d y =>
    cases left with
    | nil => exact Or.inr ⟨(List.append_nil x).symm, hbegins⟩
    | cons c left =>
      obtain ⟨rfl, -⟩ := List.cons_prefix_cons.mp hbegins
      have hd := hp (d :: y) hy d rfl
      rw [hfront d (List.mem_append_right _ List.mem_cons_self)] at hd
      exact absurd hd Bool.false_ne_true

/-- Behind the longest text of one language the longest of another is read. -/
theorem Longest.mul (hL : Longest L t front u) (hM : Longest M u back rest) (hp : HeadIn p M)
    (hfront : ∀ c ∈ front, p c = false) : Longest (L * M) t (front ++ back) rest where
  text := by rw [hL.text, hM.text, List.append_assoc]
  mem := Language.append_mem_mul hL.mem hM.mem
  length_le := by
    intro w hw hbegins
    obtain ⟨x, hx, y, hy, rfl⟩ := Language.mem_mul.mp hw
    rw [List.length_append, List.length_append]
    rcases hL.of_append_prefix hp hfront hx hy hbegins with ⟨rfl, hlength⟩ | ⟨rfl, hback⟩
    · exact Nat.le_trans hlength (Nat.le_add_right _ _)
    · exact Nat.add_le_add_left (hM.length_le y hy hback) _

theorem Longest.noneOf_mul (hL : Longest L t front u) (hM : NoneOf M u) (hp : HeadIn p M)
    (hfront : ∀ c ∈ front, p c = false) : NoneOf (L * M) t := by
  intro w hw hbegins
  obtain ⟨x, hx, y, hy, rfl⟩ := Language.mem_mul.mp hw
  rcases hL.of_append_prefix hp hfront hx hy hbegins with ⟨rfl, -⟩ | ⟨-, hback⟩
  · exact hM [] hy List.nil_prefix
  · exact hM y hy hback

theorem Longest.add_left (h : Longest L t front rest)
    (hM : ∀ w ∈ M, w <+: t → w.length ≤ front.length) : Longest (L + M) t front rest where
  text := h.text
  mem := (Language.mem_add L M front).mpr (Or.inl h.mem)
  length_le := by
    intro w hw hbegins
    rcases (Language.mem_add L M w).mp hw with hw | hw
    · exact h.length_le w hw hbegins
    · exact hM w hw hbegins

theorem Longest.add_right (h : Longest M t front rest)
    (hL : ∀ w ∈ L, w <+: t → w.length ≤ front.length) : Longest (L + M) t front rest := by
  rw [add_comm]
  exact h.add_left hL

theorem NoneOf.length_le (h : NoneOf L t) : ∀ w ∈ L, w <+: t → w.length ≤ front.length :=
  fun w hw hbegins => absurd hbegins (h w hw)

theorem NoneOf.add (hL : NoneOf L t) (hM : NoneOf M t) : NoneOf (L + M) t := by
  intro w hw
  rcases (Language.mem_add L M w).mp hw with hw | hw
  · exact hL w hw
  · exact hM w hw

theorem Longest.optional (h : Longest L t front rest) : Longest (1 + L) t front rest := by
  refine h.add_right ?_
  intro w hw _
  rw [(Language.mem_one w).mp hw]
  exact Nat.zero_le _

theorem NoneOf.optional (h : NoneOf L t) : Longest (1 + L) t [] t where
  text := rfl
  mem := mem_optional_iff.mpr (Or.inl rfl)
  length_le := by
    intro w hw hbegins
    rcases mem_optional_iff.mp hw with rfl | hw
    · exact Nat.le_refl _
    · exact absurd hbegins (h w hw)

/-- A reader of one character that may be missing. -/
theorem longest_optional_one {read : Text → Text × Text}
    (hread : ∀ c t, p c = true → read (c :: t) = ([c], t))
    (hskip : ∀ t, (∀ c, t.head? = some c → p c = false) → read t = ([], t)) (t : Text) :
    Longest (1 + one p) t (read t).1 (read t).2 := by
  by_cases h : ∃ c rest, t = c :: rest ∧ p c = true
  · obtain ⟨c, rest, rfl, hc⟩ := h
    rw [hread c rest hc]
    exact (longest_one hc rest).optional
  · have hnone : ∀ c, t.head? = some c → p c = false := by
      intro c hc
      obtain ⟨rest, rfl⟩ := List.head?_eq_some_iff.mp hc
      exact Bool.eq_false_iff.mpr fun hp => h ⟨c, rest, rfl, hp⟩
    rw [hskip t hnone]
    exact (noneOf_one hnone).optional

end Longest

end Text
end SketchPreview
