import SketchPreview.Proofs.Text.Places

/-!
Replacing words by other texts, in one reading or one kind of word after another.

`expand` reads a text once, from the left.  Words in braces never overlap, so a reading goes from
word to word (`Proper.reading`).  To replace one kind of word after the others gives what one
reading gives if filling in the others has made no more of them (`expand_expand`).  It never makes
fewer, and every word that is replaced takes a brace away (`count_expand`), so the braces that are
left tell whether it has made more.
-/

namespace SketchPreview
namespace Text

/-- The number of places where a word stands in a text. -/
def occurrences (word : Text) : Text → Nat
  | [] => 0
  | c :: t => (if word.isPrefixOf (c :: t) then 1 else 0) + occurrences word t

/-- Reads a text from the left and writes for each word of a table what the table has for it. -/
def expand (table : List (Text × Text)) : Text → Text
  | [] => []
  | c :: t =>
    match table.find? fun entry => entry.1.isPrefixOf (c :: t) with
    | some (word, new) => new ++ expand table (t.drop (word.length - 1))
    | none => c :: expand table t
termination_by t => t.length

/-! ## Words in braces -/

/-- Whether a word stands in braces and holds no others. -/
def Braced (word : Text) : Prop := ∃ name, word = '{' :: (name ++ ['}']) ∧ '{' ∉ name ∧ '}' ∉ name

section Braced

variable {word v a t : Text} {c : Char}

theorem Braced.exists_cons (h : Braced word) : ∃ rest, word = '{' :: rest ∧ '{' ∉ rest := by
  obtain ⟨name, rfl, hopen, -⟩ := h
  exact ⟨name ++ ['}'], rfl, by simpa using hopen⟩

theorem Braced.not_begins (h : Braced word) (hc : c ≠ '{') : ¬word <+: c :: t := by
  obtain ⟨rest, rfl, -⟩ := h.exists_cons
  rw [List.cons_prefix_cons]
  exact fun hprefix => hc hprefix.1.symm

/-- Two words that begin at one place are the same. -/
theorem Braced.unique (hv : Braced v) (hword : Braced word) (h : v <+: t)
    (h' : word <+: t) : v = word := by
  obtain ⟨name, rfl, -, hname⟩ := hv
  obtain ⟨name', rfl, -, hname'⟩ := hword
  have hread : ∀ name tail : Text, '}' ∉ name →
      (name ++ '}' :: tail).takeWhile (· != '}') = name := by
    intro name tail h
    rw [List.takeWhile_append_of_pos, List.takeWhile_cons_of_neg (by simp), List.append_nil]
    intro c hc
    rw [bne_iff_ne]
    rintro rfl
    exact h hc
  obtain ⟨tail, rfl⟩ := h
  obtain ⟨tail', htail⟩ := h'
  have hnames : name' ++ '}' :: tail' = name ++ '}' :: tail := by simpa using htail
  rw [← hread name tail hname, ← hnames, hread name' tail' hname']

end Braced

/-- Whether a table has braced words only, and each once. -/
structure Proper (table : List (Text × Text)) : Prop where
  braced : ∀ entry ∈ table, Braced entry.1
  apart : table.Pairwise fun a b => a.1 ≠ b.1

theorem Proper.sublist {table more : List (Text × Text)} (h : Proper more)
    (hsub : table.Sublist more) : Proper table :=
  ⟨fun entry hentry => h.braced entry (hsub.subset hentry), h.apart.sublist hsub⟩

/-! ## One reading -/

section Expand

variable {table : List (Text × Text)} {word new : Text}

@[simp] theorem expand_nil (table : List (Text × Text)) : expand table [] = [] := by
  rw [expand]

theorem expand_other {c : Char} {t : Text} (h : ∀ entry ∈ table, ¬entry.1 <+: c :: t) :
    expand table (c :: t) = c :: expand table t := by
  have hfind : (table.find? fun entry => entry.1.isPrefixOf (c :: t)) = none := by
    rw [List.find?_eq_none]
    intro entry hentry
    rw [List.isPrefixOf_iff_prefix]
    exact h entry hentry
  rw [expand, hfind]

theorem Proper.find?_eq (h : Proper table) (hmem : (word, new) ∈ table) (rest : Text) :
    (table.find? fun entry => entry.1.isPrefixOf (word ++ rest)) = some (word, new) := by
  have hword := h.braced _ hmem
  obtain ⟨hbraced, hapart⟩ := h
  induction table with
  | nil => simp at hmem
  | cons entry table ih =>
    rw [List.pairwise_cons] at hapart
    rcases List.mem_cons.mp hmem with rfl | hrest
    · rw [List.find?_cons_of_pos]
      exact List.isPrefixOf_iff_prefix.mpr (List.prefix_append word rest)
    · rw [List.find?_cons_of_neg, ih hrest (fun e he => hbraced e (List.mem_cons_of_mem _ he))
        hapart.2]
      rw [List.isPrefixOf_iff_prefix]
      intro hprefix
      exact hapart.1 _ hrest ((hbraced entry List.mem_cons_self).unique hword hprefix
        (List.prefix_append word rest))

theorem Proper.expand_word (h : Proper table) (hmem : (word, new) ∈ table) (rest : Text) :
    expand table (word ++ rest) = new ++ expand table rest := by
  have hfind := h.find?_eq hmem rest
  obtain ⟨tail, rfl, -⟩ := (h.braced _ hmem).exists_cons
  rw [List.cons_append, expand, ← List.cons_append, hfind]
  simp

/-- A text is read word by word, and between the words one character at a time. -/
theorem Proper.reading (h : Proper table) {motive : Text → Prop} (nil : motive [])
    (word : ∀ word new rest, (word, new) ∈ table → motive rest → motive (word ++ rest))
    (other : ∀ c t, (∀ entry ∈ table, ¬entry.1 <+: c :: t) → motive t → motive (c :: t))
    (t : Text) : motive t := by
  induction hlength : t.length using Nat.strongRecOn generalizing t with
  | ind n ih =>
    cases t with
    | nil => exact nil
    | cons c t =>
      rw [List.length_cons] at hlength
      by_cases hword : ∃ entry ∈ table, entry.1 <+: c :: t
      · obtain ⟨⟨w, new⟩, hmem, rest, hrest⟩ := hword
        have hlt : rest.length < n := by
          obtain ⟨tail, hw, -⟩ := (h.braced _ hmem).exists_cons
          have hsum := congrArg List.length hrest
          rw [hw, List.length_append, List.length_cons, List.length_cons] at hsum
          omega
        rw [← hrest]
        exact word w new rest hmem (ih rest.length hlt rest rfl)
      · have hno : ∀ entry ∈ table, ¬entry.1 <+: c :: t :=
          fun entry hentry hprefix => hword ⟨entry, hentry, hprefix⟩
        exact other c t hno (ih t.length (by omega) t rfl)

theorem expand_append (hbraced : ∀ entry ∈ table, Braced entry.1) {a : Text} (ha : '{' ∉ a)
    (t : Text) : expand table (a ++ t) = a ++ expand table t := by
  induction a with
  | nil => rfl
  | cons c a ih =>
    rw [List.mem_cons, not_or] at ha
    rw [List.cons_append, expand_other, ih ha.2, List.cons_append]
    exact fun entry hentry => (hbraced entry hentry).not_begins (Ne.symm ha.1)

theorem expand_absent (hbraced : ∀ entry ∈ table, Braced entry.1) (hword : Braced word)
    (habsent : ∀ entry ∈ table, entry.1 ≠ word) (t : Text) :
    expand table (word ++ t) = word ++ expand table t := by
  have hno : ∀ entry ∈ table, ¬entry.1 <+: word ++ t := by
    intro entry hentry hprefix
    exact habsent entry hentry
      ((hbraced entry hentry).unique hword hprefix (List.prefix_append word t))
  obtain ⟨tail, rfl, htail⟩ := hword.exists_cons
  simp only [List.cons_append] at hno ⊢
  rw [expand_other hno, expand_append hbraced htail]

@[simp] theorem expand_empty (t : Text) : expand [] t = t := by
  induction t with
  | nil => rw [expand_nil]
  | cons c t ih => rw [expand_other (by simp), ih]

theorem proper_single (hword : Braced word) (new : Text) : Proper [(word, new)] :=
  ⟨by simpa using hword, List.pairwise_singleton _ _⟩

theorem replaceAll_of_cutAt? {t : Text} (hword : word ≠ []) : replaceAll word new t =
    match cutAt? word t with
    | none => t
    | some (before, after) => before ++ new ++ replaceAll word new after := by
  rw [replaceAll, dif_neg hword]
  split <;> simp_all

/-- Replacing a word is one reading. -/
theorem replaceAll_eq_expand (hword : Braced word) (new t : Text) :
    replaceAll word new t = expand [(word, new)] t := by
  have hne : word ≠ [] := by
    obtain ⟨rest, rfl, -⟩ := hword.exists_cons
    simp
  have hproper := proper_single hword new
  induction t using hproper.reading with
  | nil =>
    have hcut : cutAt? word [] = none := by simp [cutAt?, hne]
    rw [replaceAll_of_cutAt? hne, hcut, expand_nil]
  | word w n rest hmem ih =>
    obtain ⟨rfl, rfl⟩ : w = word ∧ n = new := by simpa using hmem
    rw [replaceAll_of_cutAt? hne, cutAt?_append hne, hproper.expand_word hmem, ← ih]
    rfl
  | other c t hno ih =>
    have hbehind : behind? word (c :: t) = none := by
      rw [Option.eq_none_iff_forall_ne_some]
      intro rest hrest
      exact hno _ List.mem_cons_self ⟨rest, (behind?_eq_some_iff.mp hrest).symm⟩
    rw [expand_other hno, ← ih, replaceAll_of_cutAt? hne, replaceAll_of_cutAt? hne,
      cutAt?_cons hbehind]
    cases cutAt? word t <;> rfl

end Expand

/-! ## Where words stand -/

section Occurrences

variable {word v t : Text} {c : Char}

theorem occurrences_other (h : ¬word <+: c :: t) :
    occurrences word (c :: t) = occurrences word t := by
  have hp : word.isPrefixOf (c :: t) = false := by
    rw [← Bool.not_eq_true, List.isPrefixOf_iff_prefix]
    exact h
  rw [occurrences, hp, if_neg Bool.false_ne_true, Nat.zero_add]

theorem occurrences_cons_of_begins (h : word <+: c :: t) :
    occurrences word (c :: t) = 1 + occurrences word t := by
  rw [occurrences, if_pos (List.isPrefixOf_iff_prefix.mpr h)]

theorem occurrences_le_cons (word : Text) (c : Char) (t : Text) :
    occurrences word t ≤ occurrences word (c :: t) := by
  rw [occurrences]
  omega

theorem occurrences_le_append (word a t : Text) :
    occurrences word t ≤ occurrences word (a ++ t) := by
  induction a with
  | nil => exact Nat.le_refl _
  | cons c a ih => exact Nat.le_trans ih (occurrences_le_cons word c (a ++ t))

theorem occurrences_append (h : Braced word) {a : Text} (ha : '{' ∉ a) (t : Text) :
    occurrences word (a ++ t) = occurrences word t := by
  induction a with
  | nil => rfl
  | cons c a ih =>
    rw [List.mem_cons, not_or] at ha
    rw [List.cons_append, occurrences_other (h.not_begins (Ne.symm ha.1)), ih ha.2]

theorem occurrences_word (h : Braced word) (t : Text) :
    occurrences word (word ++ t) = 1 + occurrences word t := by
  obtain ⟨tail, hword, htail⟩ := h.exists_cons
  have hprefix : word <+: '{' :: (tail ++ t) := ⟨t, by rw [hword, List.cons_append]⟩
  have heq : word ++ t = '{' :: (tail ++ t) := by rw [hword, List.cons_append]
  rw [heq, occurrences_cons_of_begins hprefix, occurrences_append h htail]

theorem occurrences_of_ne (hword : Braced word) (hv : Braced v) (hne : v ≠ word) (t : Text) :
    occurrences word (v ++ t) = occurrences word t := by
  have hno : ¬word <+: v ++ t := fun hprefix =>
    hne (hv.unique hword (List.prefix_append v t) hprefix)
  obtain ⟨tail, rfl, htail⟩ := hv.exists_cons
  simp only [List.cons_append] at hno ⊢
  rw [occurrences_other hno, occurrences_append hword htail]

/-- A text in front of another that makes no more of a word is left alone. -/
theorem expand_append_of_occurrences {new a : Text}
    (h : occurrences word (a ++ t) = occurrences word t) :
    expand [(word, new)] (a ++ t) = a ++ expand [(word, new)] t := by
  induction a with
  | nil => rfl
  | cons c a ih =>
    rw [List.cons_append] at h ⊢
    have hle := occurrences_le_append word a t
    have hno : ¬word <+: c :: (a ++ t) := by
      intro hprefix
      rw [occurrences_cons_of_begins hprefix] at h
      omega
    rw [occurrences_other hno] at h
    rw [expand_other (by simpa using hno), ih h, List.cons_append]

end Occurrences

/-! ## One kind of word after the others -/

section Snoc

variable {table : List (Text × Text)} {word new : Text}

theorem Proper.of_snoc (h : Proper (table ++ [(word, new)])) :
    Proper table ∧ Braced word ∧ ∀ entry ∈ table, entry.1 ≠ word := by
  obtain ⟨hbraced, hapart⟩ := h
  rw [List.pairwise_append] at hapart
  refine ⟨⟨fun entry hentry => hbraced entry (List.mem_append_left _ hentry), hapart.1⟩,
    hbraced (word, new) (by simp), ?_⟩
  intro entry hentry
  exact hapart.2.2 entry hentry _ (List.mem_singleton_self _)

/-- Filling in other words makes no fewer of a word. -/
theorem occurrences_le_expand (h : Proper (table ++ [(word, new)])) (t : Text) :
    occurrences word t ≤ occurrences word (expand table t) := by
  obtain ⟨htable, hword, habsent⟩ := h.of_snoc
  induction t using h.reading with
  | nil => simp
  | word v n rest hmem ih =>
    rcases List.mem_append.mp hmem with hv | hv
    · rw [occurrences_of_ne hword (htable.braced _ hv) (habsent _ hv), htable.expand_word hv]
      exact Nat.le_trans ih (occurrences_le_append _ _ _)
    · obtain ⟨rfl, rfl⟩ : v = word ∧ n = new := by simpa using hv
      rw [expand_absent htable.braced hword habsent, occurrences_word hword,
        occurrences_word hword]
      omega
  | other c t hno ih =>
    have hword : ¬word <+: c :: t := hno (word, new) (by simp)
    rw [occurrences_other hword,
      expand_other fun entry hentry => hno entry (List.mem_append_left _ hentry)]
    exact Nat.le_trans ih (occurrences_le_cons _ _ _)

/-- Where filling in other words has made no more of a word, it may be replaced after them. -/
theorem expand_expand (h : Proper (table ++ [(word, new)])) {t : Text}
    (hnone : occurrences word (expand table t) = occurrences word t) :
    expand [(word, new)] (expand table t) = expand (table ++ [(word, new)]) t := by
  obtain ⟨htable, hword, habsent⟩ := h.of_snoc
  have hsingle := proper_single hword new
  induction t using h.reading with
  | nil => simp
  | word v n rest hmem ih =>
    rw [h.expand_word hmem]
    rcases List.mem_append.mp hmem with hv | hv
    · rw [occurrences_of_ne hword (htable.braced _ hv) (habsent _ hv),
        htable.expand_word hv] at hnone
      have hmore := occurrences_le_append word n (expand table rest)
      have hrest := occurrences_le_expand h rest
      rw [htable.expand_word hv, expand_append_of_occurrences (by omega), ih (by omega)]
    · obtain ⟨rfl, rfl⟩ : v = word ∧ n = new := by simpa using hv
      rw [expand_absent htable.braced hword habsent, occurrences_word hword,
        occurrences_word hword] at hnone
      rw [expand_absent htable.braced hword habsent,
        hsingle.expand_word (List.mem_singleton_self _), ih (by omega)]
  | other c t hno ih =>
    have hother : expand table (c :: t) = c :: expand table t :=
      expand_other fun entry hentry => hno entry (List.mem_append_left _ hentry)
    have hword : ¬word <+: c :: t := hno (word, new) (by simp)
    rw [occurrences_other hword, hother] at hnone
    have hrest := occurrences_le_expand h t
    have hmore := occurrences_le_cons word c (expand table t)
    have hkept : expand [(word, new)] ([c] ++ expand table t) =
        [c] ++ expand [(word, new)] (expand table t) :=
      expand_append_of_occurrences (by rw [List.singleton_append]; omega)
    rw [hother, expand_other hno, ← ih (by omega)]
    exact hkept

/-- Every word that is replaced takes its brace away. -/
theorem count_expand (h : Proper (table ++ [(word, new)])) (hnew : '{' ∉ new) (t : Text) :
    (expand (table ++ [(word, new)]) t).count '{' + occurrences word t =
      (expand table t).count '{' := by
  obtain ⟨htable, hword, habsent⟩ := h.of_snoc
  induction t using h.reading with
  | nil => simp [occurrences]
  | word v n rest hmem ih =>
    rw [h.expand_word hmem]
    rcases List.mem_append.mp hmem with hv | hv
    · rw [occurrences_of_ne hword (htable.braced _ hv) (habsent _ hv), htable.expand_word hv,
        List.count_append, List.count_append]
      omega
    · obtain ⟨rfl, rfl⟩ : v = word ∧ n = new := by simpa using hv
      have hcount : v.count '{' = 1 := by
        obtain ⟨tail, rfl, htail⟩ := hword.exists_cons
        rw [List.count_cons_self, List.count_eq_zero_of_not_mem htail]
      rw [expand_absent htable.braced hword habsent, occurrences_word hword, List.count_append,
        List.count_append, List.count_eq_zero_of_not_mem hnew, hcount]
      omega
  | other c t hno ih =>
    have hword : ¬word <+: c :: t := hno (word, new) (by simp)
    rw [occurrences_other hword, expand_other hno,
      expand_other fun entry hentry => hno entry (List.mem_append_left _ hentry),
      List.count_cons, List.count_cons]
    omega

theorem count_expand_single (hword : Braced word) (hnew : '{' ∉ new) (t : Text) :
    (expand [(word, new)] t).count '{' + occurrences word t = t.count '{' := by
  have hcount := count_expand (List.nil_append [(word, new)] ▸ proper_single hword new) hnew t
  rwa [List.nil_append, expand_empty] at hcount

end Snoc

/-! ## Texts that complete no word -/

section Apart

variable {word v new : Text} (hword : Braced word) (hnew : new ≠ [])

include hword hnew

theorem prefix_expand_iff {a : Text} (ha : '{' ∉ a) (hapart : ∀ c ∈ new, c ∉ a) (t : Text) :
    a <+: expand [(word, new)] t ↔ a <+: t := by
  induction a generalizing t with
  | nil => simp
  | cons d a ih =>
    rw [List.mem_cons, not_or] at ha
    have hrest := ih ha.2 fun c hc hmem => hapart c hc (List.mem_cons_of_mem d hmem)
    by_cases hprefix : word <+: t
    · obtain ⟨rest, rfl⟩ := hprefix
      rw [(proper_single hword new).expand_word (List.mem_singleton_self _)]
      obtain ⟨first, more, rfl⟩ := List.exists_cons_of_ne_nil hnew
      obtain ⟨tail, rfl, -⟩ := hword.exists_cons
      have hfirst : d ≠ first := by
        rintro rfl
        exact hapart d List.mem_cons_self List.mem_cons_self
      simp [List.cons_prefix_cons, hfirst, Ne.symm ha.1]
    · cases t with
      | nil => simp
      | cons c t =>
        rw [expand_other (by simpa using hprefix), List.cons_prefix_cons, List.cons_prefix_cons,
          hrest t]

/-- A text that shares no character with a word neither makes one nor breaks one. -/
theorem occurrences_expand (hv : Braced v) (hne : word ≠ v) (hapart : ∀ c ∈ new, c ∉ v)
    (t : Text) : occurrences v (expand [(word, new)] t) = occurrences v t := by
  have hproper := proper_single hword new
  obtain ⟨tail, hcons, htail⟩ := hv.exists_cons
  have hopen : '{' ∉ new := by
    intro hmem
    apply hapart _ hmem
    rw [hcons]
    exact List.mem_cons_self
  induction t using hproper.reading with
  | nil => rw [expand_nil]
  | word w n rest hmem ih =>
    obtain ⟨rfl, rfl⟩ : w = word ∧ n = new := by simpa using hmem
    rw [hproper.expand_word hmem, occurrences_append hv hopen, ih, occurrences_of_ne hv hword hne]
  | other c t hno ih =>
    have hiff : v <+: c :: expand [(word, new)] t ↔ v <+: c :: t := by
      rw [hcons, List.cons_prefix_cons, List.cons_prefix_cons,
        prefix_expand_iff hword hnew htail]
      intro d hd hmem
      apply hapart d hd
      rw [hcons]
      exact List.mem_cons_of_mem _ hmem
    rw [expand_other hno]
    by_cases hprefix : v <+: c :: t
    · rw [occurrences_cons_of_begins hprefix, occurrences_cons_of_begins (hiff.mpr hprefix), ih]
    · rw [occurrences_other hprefix, occurrences_other (mt hiff.mp hprefix), ih]

end Apart

end Text
end SketchPreview
