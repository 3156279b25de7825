import Mathlib.Data.List.DropRight
import SketchPreview.Text.Basic

/-!
What is left when both ends of a text are stripped.  Only characters of the class are lost
(`exists_append_strip`), and a text that neither begins nor ends with one loses nothing
(`strip_eq_self`); so stripping twice is stripping once.
-/

namespace SketchPreview
namespace Text

section Strip

variable (p : Char → Bool) (t : Text)

theorem strip_eq : strip p t = (t.dropWhile p).rdropWhile p := rfl

theorem exists_append_strip : ∃ before after, t = before ++ strip p t ++ after ∧
    (∀ c ∈ before, p c = true) ∧ ∀ c ∈ after, p c = true := by
  have hfront : t.takeWhile p ++ t.dropWhile p = t := List.takeWhile_append_dropWhile
  have hback : (t.dropWhile p).rdropWhile p ++ (t.dropWhile p).rtakeWhile p = t.dropWhile p := by
    rw [List.rdropWhile, List.rtakeWhile, ← List.reverse_append,
      List.takeWhile_append_dropWhile, List.reverse_reverse]
  refine ⟨t.takeWhile p, (t.dropWhile p).rtakeWhile p, ?_, ?_, ?_⟩
  · rw [strip_eq, List.append_assoc, hback, hfront]
  · exact fun c hc => List.all_eq_true.mp List.all_takeWhile c hc
  · intro c hc
    rw [List.rtakeWhile, List.mem_reverse] at hc
    exact List.all_eq_true.mp List.all_takeWhile c hc

variable {p t}

theorem strip_eq_self (hfirst : ∀ c, t.head? = some c → p c = false)
    (hlast : ∀ c, t.getLast? = some c → p c = false) : strip p t = t := by
  have hfront : t.dropWhile p = t := by
    cases t with
    | nil => rfl
    | cons c rest => exact List.dropWhile_cons_of_neg (by simp [hfirst c rfl])
  rw [strip_eq, hfront, List.rdropWhile_eq_self_iff]
  intro hne
  simp [hlast _ (List.getLast?_eq_some_getLast hne)]

theorem of_getLast?_strip {c : Char} (h : (strip p t).getLast? = some c) : p c = false := by
  have hne : strip p t ≠ [] := by
    intro hnil
    simp [hnil] at h
  have hlast := List.rdropWhile_last_not p (t.dropWhile p) hne
  rw [List.getLast?_eq_some_getLast hne, Option.some.injEq] at h
  rw [← Bool.not_eq_true, ← h]
  exact hlast

theorem of_head?_strip {c : Char} (h : (strip p t).head? = some c) : p c = false := by
  obtain ⟨after, hafter⟩ := List.rdropWhile_prefix p (t.dropWhile p)
  have hhead : (t.dropWhile p).head? = some c := by
    rw [← hafter, List.head?_append]
    exact Option.or_eq_some_iff.mpr (Or.inl h)
  have hnot := List.head?_dropWhile_not p t
  rw [hhead] at hnot
  exact hnot

theorem strip_strip : strip p (strip p t) = strip p t :=
  strip_eq_self (fun _ h => of_head?_strip h) fun _ h => of_getLast?_strip h

theorem strip_append_left {a : Text} (ha : ∀ c ∈ a, p c = true) :
    strip p (a ++ t) = strip p t := by
  rw [strip_eq, strip_eq, List.dropWhile_append_of_pos ha]

end Strip

theorem trim_eq_nil_iff {t : Text} : trim t = [] ↔ ∀ c ∈ t, isBlank c = true := by
  constructor
  · intro h c hc
    obtain ⟨before, after, ht, hbefore, hafter⟩ := exists_append_strip isBlank t
    have hmiddle : strip isBlank t = [] := h
    rw [hmiddle, List.append_nil] at ht
    rw [ht] at hc
    rcases List.mem_append.mp hc with hc | hc
    · exact hbefore c hc
    · exact hafter c hc
  · intro h
    have hstrip := strip_append_left (t := []) h
    rw [List.append_nil] at hstrip
    rw [trim, hstrip]
    rfl

theorem trim_trim (t : Text) : trim (trim t) = trim t := strip_strip

/-- A numeral has nothing to trim. -/
theorem trim_decimal (n : Nat) : trim (decimal n) = decimal n := by
  have hdigit : ∀ c ∈ decimal n, isBlank c = false := by
    intro c hc
    have hdigit := Nat.isDigit_of_mem_toDigits (by decide) (by decide) hc
    have hrange : 48 ≤ c.toNat ∧ c.toNat ≤ 57 := Char.isDigit_iff_toNat.mp hdigit
    simp only [isBlank, Bool.or_eq_false_iff, Bool.and_eq_false_iff, decide_eq_false_iff_not,
      beq_eq_false_iff_ne, ne_eq]
    omega
  exact strip_eq_self (fun c hc => hdigit c (List.mem_of_mem_head? hc))
    fun c hc => hdigit c (List.mem_of_getLast? hc)

end Text
end SketchPreview
