import SketchPreview.Text.Search

/-!
Places in a text.  A place is a cut of the text in two, and its offset is the number of bytes in
front of it.  `slice?` reads the text between two offsets, as a reader of bytes would: it gives
nothing where an offset is out of bounds or falls inside a character, and `slice?_eq_some_iff` says
that it gives exactly the piece of the text that stands there.

The second section says where `cutAt?` finds a word, one character at a time.
-/

namespace SketchPreview
namespace Text

/-! ## Offsets -/

theorem byteSize_cons_pos (c : Char) (t : Text) : 0 < byteSize (c :: t) := by
  have hc := c.utf8Size_pos
  rw [byteSize_cons]
  omega

theorem byteSize_pos {t : Text} (h : t ≠ []) : 0 < byteSize t := by
  cases t with
  | nil => exact absurd rfl h
  | cons c t => exact byteSize_cons_pos c t

/-- Of two places the one with the smaller offset comes first. -/
theorem exists_append_of_byteSize_le {a b c d : Text} (h : a ++ b = c ++ d)
    (hs : byteSize a ≤ byteSize c) : ∃ e, c = a ++ e ∧ b = e ++ d := by
  rcases List.append_eq_append_iff.mp h with ⟨e, hc, hb⟩ | ⟨e, rfl, rfl⟩
  · exact ⟨e, hc, hb⟩
  · rw [byteSize_append] at hs
    by_cases he : e = []
    · subst he
      exact ⟨[], by simp, by simp⟩
    · have hpos := byteSize_pos he
      omega

/-- A place is determined by its offset. -/
theorem eq_of_byteSize_eq {a b c d : Text} (h : a ++ b = c ++ d)
    (hs : byteSize a = byteSize c) : a = c ∧ b = d := by
  obtain ⟨e, rfl, rfl⟩ := exists_append_of_byteSize_le h (Nat.le_of_eq hs)
  rw [byteSize_append] at hs
  by_cases he : e = []
  · subst he
    simp
  · have hpos := byteSize_pos he
    omega

/-- To look at every place of a text it is enough to look at them one by one. -/
theorem forall_place_of_forall_take {motive : Text → Text → Prop} {t : Text}
    (h : ∀ i ∈ List.range (t.length + 1), motive (t.take i) (t.drop i)) (before tail : Text)
    (ht : t = before ++ tail) : motive before tail := by
  have htake : t.take before.length = before := by rw [ht, List.take_left]
  have hdrop : t.drop before.length = tail := by rw [ht, List.drop_left]
  have hle : before.length ≤ t.length := by
    rw [ht, List.length_append]
    omega
  have hplace := h before.length (List.mem_range.mpr (Nat.lt_succ_of_le hle))
  rwa [htake, hdrop] at hplace

/-- The text cut behind its first `n` bytes. -/
def splitAtByte? : Nat → Text → Option (Text × Text)
  | 0, t => some ([], t)
  | _ + 1, [] => none
  | n + 1, c :: t =>
    if c.utf8Size ≤ n + 1 then
      (splitAtByte? (n + 1 - c.utf8Size) t).map fun (front, rest) => (c :: front, rest)
    else none

theorem splitAtByte?_append (a b : Text) : splitAtByte? (byteSize a) (a ++ b) = some (a, b) := by
  induction a with
  | nil => cases b <;> rfl
  | cons c a ih =>
    obtain ⟨n, hn⟩ := Nat.exists_eq_succ_of_ne_zero (Nat.ne_of_gt (byteSize_cons_pos c a))
    rw [List.cons_append, hn, splitAtByte?, ← Nat.succ_eq_add_one, ← hn, byteSize_cons,
      if_pos (Nat.le_add_right _ _), Nat.add_sub_cancel_left, ih]
    rfl

theorem eq_of_splitAtByte? {n : Nat} {t a b : Text} (h : splitAtByte? n t = some (a, b)) :
    t = a ++ b ∧ byteSize a = n := by
  induction t generalizing n a with
  | nil =>
    cases n with
    | zero => simp_all [splitAtByte?]
    | succ n => simp [splitAtByte?] at h
  | cons c t ih =>
    cases n with
    | zero =>
      simp only [splitAtByte?, Option.some.injEq, Prod.mk.injEq] at h
      obtain ⟨rfl, rfl⟩ := h
      exact ⟨rfl, rfl⟩
    | succ n =>
      rw [splitAtByte?] at h
      split at h
      · obtain ⟨⟨front, rest⟩, hsplit, heq⟩ := Option.map_eq_some_iff.mp h
        simp only [Prod.mk.injEq] at heq
        obtain ⟨rfl, rfl⟩ := heq
        obtain ⟨rfl, hs⟩ := ih hsplit
        refine ⟨rfl, ?_⟩
        rw [byteSize_cons, hs]
        omega
      · simp at h

def slice? (first last : Nat) (t : Text) : Option Text := do
  let (_, rest) ← splitAtByte? first t
  if first ≤ last then
    let (front, _) ← splitAtByte? (last - first) rest
    return front
  else none

/-- A slice is there exactly when both offsets are places of the text in this order. -/
theorem slice?_eq_some_iff {first last : Nat} {t s : Text} :
    slice? first last t = some s ↔ ∃ before after, t = before ++ s ++ after ∧
      first = byteSize before ∧ last = byteSize before + byteSize s := by
  constructor
  · intro h
    obtain ⟨⟨before, rest⟩, hfirst, hrest⟩ := Option.bind_eq_some_iff.mp h
    obtain ⟨rfl, rfl⟩ := eq_of_splitAtByte? hfirst
    dsimp only at hrest
    split at hrest
    · rename_i hle
      obtain ⟨⟨front, after⟩, hlast, hs⟩ := Option.bind_eq_some_iff.mp hrest
      obtain ⟨rfl, hsize⟩ := eq_of_splitAtByte? hlast
      obtain rfl : front = s := by simpa using hs
      exact ⟨before, after, by simp, rfl, by omega⟩
    · simp at hrest
  · intro h
    obtain ⟨before, after, rfl, rfl, rfl⟩ := h
    rw [slice?, List.append_assoc, splitAtByte?_append]
    simp [splitAtByte?_append]

/-! ## The first occurrence of a word -/

theorem cutAt?_append {word : Text} (hw : word ≠ []) (rest : Text) :
    cutAt? word (word ++ rest) = some ([], rest) := by
  cases word with
  | nil => exact absurd rfl hw
  | cons c word =>
    have hp : (c :: word).isPrefixOf (c :: (word ++ rest)) = true :=
      List.isPrefixOf_iff_prefix.mpr ⟨rest, rfl⟩
    simp only [List.cons_append, cutAt?, hp, if_true]
    simp

theorem cutAt?_cons {word t : Text} {c : Char} (h : behind? word (c :: t) = none) :
    cutAt? word (c :: t) = (cutAt? word t).map fun (before, after) => (c :: before, after) := by
  have hp : word.isPrefixOf (c :: t) = false := by
    rw [Bool.eq_false_iff]
    intro hp
    obtain ⟨rest, hr⟩ := List.isPrefixOf_iff_prefix.mp hp
    rw [behind?_eq_some_iff.mpr hr.symm] at h
    simp at h
  rw [cutAt?, hp, if_neg Bool.false_ne_true]

end Text
end SketchPreview
