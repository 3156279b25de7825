/-!
Journals of sketches: what was launched, ended and asked, in the order in which it happened.

A sketch is known by its number, and sketches are numbered in the order of their launches, from one.
`Journal.Allows` is the rule by which a journal grows: only the last sketch is ever told anything,
it is told nothing once it has ended, and nothing is launched before every sketch has ended.
`Journal.Orderly` journals are those that grew by this rule.  `Journal.Keeps` adds which sketch is
held, and has one lemma for each way in which a holder of sketches acts.

`Journal.OneAtATime` says what a reader of a whole journal gets from the rule, as facts about any
place in it, and `Orderly.oneAtATime` that every orderly journal has it.
-/

namespace SketchPreview

/-- One thing done to a sketch, and whether it went well. -/
inductive Act where
  | launch (n : Nat)
  | exit (n : Nat) (ok : Bool)
  | poll (n : Nat) (ok : Bool)
deriving DecidableEq

namespace Act

def sketch : Act → Nat
  | .launch n => n
  | .exit n _ => n
  | .poll n _ => n

def isLaunch : Act → Bool
  | .launch _ => true
  | .exit _ _ => false
  | .poll _ _ => false

/-- Whether a sketch has ended with an act: an exit that went well, or a poll that did not. -/
def ends : Act → Bool
  | .launch _ => false
  | .exit _ ok => ok
  | .poll _ ok => !ok

theorem eq_launch {a : Act} (h : a.isLaunch = true) : a = .launch a.sketch := by
  cases a with
  | launch n => rfl
  | exit n ok => simp [isLaunch] at h
  | poll n ok => simp [isLaunch] at h

theorem isLaunch_of_ends {a : Act} (h : a.ends = true) : a.isLaunch = false := by
  cases a with
  | launch n => simp [ends] at h
  | exit n ok => rfl
  | poll n ok => rfl

end Act

/-- Acts, the oldest first. -/
abbrev Journal := List Act

namespace Journal

def launches (j : Journal) : Nat := j.countP Act.isLaunch

def Ended (j : Journal) (n : Nat) : Prop := ∃ a ∈ j, a.sketch = n ∧ a.ends = true

def Live (j : Journal) (n : Nat) : Prop := .launch n ∈ j ∧ ¬ j.Ended n

def Allows (j : Journal) (a : Act) : Prop :=
  if a.isLaunch then a.sketch = j.launches + 1 ∧ ∀ n, 0 < n → n ≤ j.launches → j.Ended n
  else a.sketch = j.launches ∧ 0 < j.launches ∧ ¬ j.Ended j.launches

theorem allows_launch_iff {j : Journal} {n : Nat} : j.Allows (.launch n) ↔
    n = j.launches + 1 ∧ ∀ m, 0 < m → m ≤ j.launches → j.Ended m := Iff.rfl

theorem allows_iff {j : Journal} {a : Act} (h : a.isLaunch = false) : j.Allows a ↔
    a.sketch = j.launches ∧ 0 < j.launches ∧ ¬ j.Ended j.launches := by
  rw [Allows, if_neg (by simp [h])]

inductive Orderly : Journal → Prop
  | nil : Orderly []
  | snoc {j : Journal} {a : Act} : Orderly j → j.Allows a → Orderly (j ++ [a])

theorem launches_append (i j : Journal) : launches (i ++ j) = launches i + launches j :=
  List.countP_append

theorem launches_snoc {j : Journal} {a : Act} (h : a.isLaunch = false) :
    launches (j ++ [a]) = launches j := by
  simp [launches, h]

theorem launches_snoc_launch (j : Journal) (n : Nat) :
    launches (j ++ [.launch n]) = launches j + 1 := by
  simp [launches, Act.isLaunch]

theorem Ended.append {i : Journal} {n : Nat} (h : i.Ended n) (j : Journal) :
    Ended (i ++ j) n := by
  obtain ⟨a, ha, hn⟩ := h
  exact ⟨a, List.mem_append_left j ha, hn⟩

theorem ended_snoc_iff {j : Journal} {a : Act} {n : Nat} :
    Ended (j ++ [a]) n ↔ j.Ended n ∨ (a.sketch = n ∧ a.ends = true) := by
  constructor
  · intro h
    obtain ⟨b, hb, hn⟩ := h
    rcases List.mem_append.mp hb with hb | hb
    · exact Or.inl ⟨b, hb, hn⟩
    · obtain rfl := List.mem_singleton.mp hb
      exact Or.inr hn
  · intro h
    rcases h with h | h
    · exact h.append [a]
    · exact ⟨a, List.mem_append_right j List.mem_cons_self, h⟩

/-! ## The places of an orderly journal -/

theorem eq_or_of_snoc_eq {i past future : Journal} {a b : Act} (h : i ++ [a] = past ++ b :: future) :
    (past = i ∧ b = a) ∨ ∃ later, i = past ++ b :: later := by
  rcases List.append_eq_append_iff.mp h with ⟨e, hpast, he⟩ | ⟨e, hi, he⟩
  · cases e with
    | nil =>
      rw [List.append_nil] at hpast
      exact Or.inl ⟨hpast, (List.cons.inj he).1.symm⟩
    | cons x e => simp at he
  · cases e with
    | nil =>
      rw [List.append_nil] at hi
      exact Or.inl ⟨hi.symm, (List.cons.inj he).1⟩
    | cons x e =>
      obtain ⟨rfl, -⟩ := List.cons.inj he
      exact Or.inr ⟨e, hi⟩

theorem Orderly.allows {j past future : Journal} {a : Act} (h : Orderly j)
    (hj : j = past ++ a :: future) : past.Allows a := by
  induction h generalizing future with
  | nil => simp at hj
  | snoc _ hallows ih =>
    rcases eq_or_of_snoc_eq hj with ⟨rfl, rfl⟩ | ⟨later, hi⟩
    · exact hallows
    · exact ih hi

theorem Orderly.past {j past future : Journal} (h : Orderly j) (hj : j = past ++ future) :
    Orderly past := by
  induction h generalizing future with
  | nil =>
    obtain ⟨rfl, -⟩ := List.append_eq_nil_iff.mp hj.symm
    exact .nil
  | @snoc i a hi hallows ih =>
    cases future with
    | nil =>
      rw [List.append_nil] at hj
      rw [← hj]
      exact .snoc hi hallows
    | cons b future =>
      rcases eq_or_of_snoc_eq hj with ⟨rfl, -⟩ | ⟨later, hlater⟩
      · exact hi
      · exact ih hlater

theorem Orderly.filter_isLaunch {j : Journal} (h : Orderly j) :
    j.filter Act.isLaunch = (List.range' 1 j.launches).map Act.launch := by
  induction h with
  | nil => rfl
  | @snoc i a _ hallows ih =>
    rw [List.filter_append, ih]
    cases ha : a.isLaunch with
    | false => simp [launches_snoc ha, ha]
    | true =>
      rw [Act.eq_launch ha] at hallows ⊢
      rw [(allows_launch_iff.mp hallows).1, launches_snoc_launch, List.range'_1_concat,
        List.map_append]
      simp [Act.isLaunch, Nat.add_comm]

theorem Orderly.launch_mem_iff {j : Journal} (h : Orderly j) {n : Nat} :
    Act.launch n ∈ j ↔ 0 < n ∧ n ≤ j.launches := by
  have hmem : Act.launch n ∈ j ↔ Act.launch n ∈ j.filter Act.isLaunch := by
    simp [Act.isLaunch]
  rw [hmem, h.filter_isLaunch, List.mem_map]
  constructor
  · intro h
    obtain ⟨m, hm, hmn⟩ := h
    obtain rfl : m = n := by simpa using hmn
    rw [List.mem_range'_1] at hm
    omega
  · intro hn
    exact ⟨n, List.mem_range'_1.mpr (by omega), rfl⟩

theorem Orderly.sketch_ne {j past future : Journal} {a b : Act} (h : Orderly j)
    (hj : j = past ++ a :: future) (ha : a.ends = true) (hb : b ∈ future) :
    b.sketch ≠ a.sketch := by
  obtain ⟨before, after, rfl⟩ := List.append_of_mem hb
  obtain ⟨hlast, -⟩ := (allows_iff (Act.isLaunch_of_ends ha)).mp (h.allows hj)
  have hplace : j = (past ++ a :: before) ++ b :: after := by simp [hj]
  have hnext := h.allows hplace
  intro hsame
  have hended : Ended (past ++ a :: before) b.sketch := ⟨a, by simp, hsame.symm, ha⟩
  have hle : past.launches ≤ launches (past ++ a :: before) := by
    rw [launches_append]
    omega
  cases hl : b.isLaunch with
  | true =>
    rw [Act.eq_launch hl, allows_launch_iff] at hnext
    omega
  | false =>
    rw [allows_iff hl] at hnext
    rw [hnext.1] at hended
    exact hnext.2.2 hended

theorem Orderly.countP_ends_le_one {j : Journal} (h : Orderly j) (n : Nat) :
    j.countP (fun a => a.sketch == n && a.ends) ≤ 1 := by
  induction h with
  | nil => exact Nat.zero_le 1
  | @snoc i a hi hallows ih =>
    rw [List.countP_append, List.countP_singleton]
    split
    · rename_i ha
      simp only [Bool.and_eq_true, beq_iff_eq] at ha
      have hnone : i.countP (fun a => a.sketch == n && a.ends) = 0 := by
        rw [List.countP_eq_zero]
        intro b hb hends
        simp only [Bool.and_eq_true, beq_iff_eq] at hends
        obtain ⟨past, future, rfl⟩ := List.append_of_mem hb
        have hne := (Orderly.snoc hi hallows).sketch_ne (b := a)
          (by rw [List.append_assoc, List.cons_append]) hends.2 (by simp)
        omega
      omega
    · exact ih

/-- What an orderly journal says at each of its places. -/
structure OneAtATime (j : Journal) : Prop where
  /-- The first sketch that is launched has the number one, the next the number two, and so on. -/
  numbered : j.filter Act.isLaunch = (List.range' 1 j.launches).map Act.launch
  /-- A sketch is told something only between its launch and the next. -/
  between : ∀ past a future, j = past ++ a :: future → a.isLaunch = false →
    .launch a.sketch ∈ past ∧ .launch (a.sketch + 1) ∉ past
  exits_once : ∀ n, j.count (.exit n true) ≤ 1
  /-- Nothing is done to a sketch that has ended. -/
  silent : ∀ past a future, j = past ++ a :: future → a.ends = true →
    ∀ b ∈ future, b.sketch ≠ a.sketch
  /-- A sketch is launched only when the one before it has ended. -/
  replaced : ∀ past n future, j = past ++ .launch (n + 1) :: future → 0 < n → Ended past n
  /-- At no time is more than one sketch live. -/
  alone : ∀ past future, j = past ++ future → ∀ m n, Live past m → Live past n → m = n

theorem Orderly.eq_launches_of_live {j : Journal} (h : Orderly j) {n : Nat} (hn : j.Live n) :
    n = j.launches := by
  obtain ⟨hpos, hle⟩ := h.launch_mem_iff.mp hn.1
  by_cases hlt : n < j.launches
  · -- The launch of the last sketch stands behind a journal in which all others have ended.
    have hlast : Act.launch j.launches ∈ j := h.launch_mem_iff.mpr ⟨by omega, Nat.le_refl _⟩
    obtain ⟨past, future, hj⟩ := List.append_of_mem hlast
    obtain ⟨hnumber, hall⟩ := allows_launch_iff.mp (h.allows hj)
    have hended := (hall n hpos (by omega)).append (Act.launch j.launches :: future)
    rw [← hj] at hended
    exact absurd hended hn.2
  · omega

theorem Orderly.oneAtATime {j : Journal} (h : Orderly j) : OneAtATime j where
  numbered := h.filter_isLaunch
  between := by
    intro past a future hj ha
    have hpast := h.past hj
    obtain ⟨hlast, hpos, -⟩ := (allows_iff ha).mp (h.allows hj)
    rw [hpast.launch_mem_iff, hpast.launch_mem_iff]
    omega
  exits_once := by
    intro n
    refine Nat.le_trans (List.countP_mono_left fun a _ ha => ?_) (h.countP_ends_le_one n)
    obtain rfl : a = .exit n true := by simpa using ha
    simp [Act.sketch, Act.ends]
  silent := fun _ _ _ hj ha _ hb => h.sketch_ne hj ha hb
  replaced := by
    intro past n future hj hn
    obtain ⟨hnumber, hall⟩ := allows_launch_iff.mp (h.allows hj)
    exact hall n hn (by omega)
  alone := by
    intro past future hj m n hm hn
    rw [(h.past hj).eq_launches_of_live hm, (h.past hj).eq_launches_of_live hn]

/-! ## Holding a sketch -/

/-- A journal is orderly, and whoever wrote it holds the sketch that has not ended, if there is one.
-/
structure Keeps (j : Journal) (held : Option Nat) : Prop where
  orderly : j.Orderly
  held_last : ∀ n, held = some n → n = j.launches ∧ 0 < n ∧ ¬ j.Ended n
  ended : ∀ n, 0 < n → n ≤ j.launches → held ≠ some n → j.Ended n

theorem keeps_nil : Keeps [] none where
  orderly := .nil
  held_last := by
    intro n h
    simp at h
  ended := by
    intro n hpos hle
    simp only [launches, List.countP_nil] at hle
    omega

theorem Keeps.launch {j : Journal} (h : Keeps j none) :
    Keeps (j ++ [.launch (j.launches + 1)]) (some (j.launches + 1)) where
  orderly := by
    refine .snoc h.orderly (allows_launch_iff.mpr ⟨rfl, ?_⟩)
    intro n hpos hle
    exact h.ended n hpos hle (by simp)
  held_last := by
    intro n hn
    obtain rfl : j.launches + 1 = n := by simpa using hn
    refine ⟨(launches_snoc_launch j _).symm, Nat.succ_pos _, ?_⟩
    rw [ended_snoc_iff]
    intro hended
    rcases hended with ⟨a, ha, hn, hends⟩ | ⟨-, hends⟩
    · -- An act of the journal is about a sketch that was launched in it.
      obtain ⟨past, future, rfl⟩ := List.append_of_mem ha
      obtain ⟨hlast, -⟩ := (allows_iff (Act.isLaunch_of_ends hends)).mp (h.orderly.allows rfl)
      rw [launches_append] at hn
      omega
    · simp [Act.ends] at hends
  ended := by
    intro n hpos hle hne
    rw [launches_snoc_launch] at hle
    have hne : n ≠ j.launches + 1 := by
      intro heq
      subst heq
      exact hne rfl
    exact (h.ended n hpos (by omega) (by simp)).append _

/-- What is told to the sketch that is held leaves it held, unless it ends with that. -/
theorem Keeps.tell {j : Journal} {a : Act} (h : Keeps j (some a.sketch)) (ha : a.isLaunch = false) :
    Keeps (j ++ [a]) (if a.ends then none else some a.sketch) where
  orderly := by
    obtain ⟨hlast, hpos, hended⟩ := h.held_last a.sketch rfl
    rw [hlast] at hpos hended
    exact .snoc h.orderly ((allows_iff ha).mpr ⟨hlast, hpos, hended⟩)
  held_last := by
    intro n hn
    cases he : a.ends with
    | true => simp [he] at hn
    | false =>
      obtain rfl : a.sketch = n := by simpa [he] using hn
      obtain ⟨hlast, hpos, hended⟩ := h.held_last a.sketch rfl
      refine ⟨by rw [launches_snoc ha, hlast], hpos, ?_⟩
      rw [ended_snoc_iff]
      intro hnow
      rcases hnow with hbefore | ⟨-, hends⟩
      · exact hended hbefore
      · simp [he] at hends
  ended := by
    intro n hpos hle hne
    rw [launches_snoc ha] at hle
    by_cases hn : a.sketch = n
    · subst hn
      cases he : a.ends with
      | true => exact ended_snoc_iff.mpr (Or.inr ⟨rfl, he⟩)
      | false => simp [he] at hne
    · exact (h.ended n hpos hle (by simpa using hn)).append [a]

/-- When nothing is held, every sketch has ended once. -/
theorem Keeps.countP_ends {j : Journal} (h : Keeps j none) {n : Nat} (hpos : 0 < n)
    (hle : n ≤ j.launches) : j.countP (fun a => a.sketch == n && a.ends) = 1 := by
  obtain ⟨a, ha, hn, hends⟩ := h.ended n hpos hle (by simp)
  have hle := h.orderly.countP_ends_le_one n
  have hpos : 0 < j.countP (fun a => a.sketch == n && a.ends) :=
    List.countP_pos_iff.mpr ⟨a, ha, by simp [hn, hends]⟩
  omega

end Journal
end SketchPreview
