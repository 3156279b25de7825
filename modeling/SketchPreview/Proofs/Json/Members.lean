import Mathlib.Data.List.Pairwise
import SketchPreview.Proofs.Json.Decoding

/-!
Members by their names.

An object is read member after member, each into the slot of its name.  Where no name comes twice
the slots do not meddle with each other, so what is gathered is what each slot makes of the member
of its name, or what it held before where there is none (`foldlM_assign`); the order does not
matter, nor do members that are for no slot.  `Record.finished?_members` is what a record comes to
in this way.
-/

namespace SketchPreview
namespace Json

/-- What the member of a name gives, or the default where there is none. -/
def given? (ms : List (Text × Value)) (name : Text) (decode : Value → Option α) (default : α) :
    Option α :=
  match ms.lookup name with
  | none => some default
  | some v => decode v

section Given

variable {ms : List (Text × Value)} {name : Text} {decode : Value → Option α}

theorem lookup_eq_some_iff (hnames : (ms.map Prod.fst).Nodup) {v : Value} :
    ms.lookup name = some v ↔ (name, v) ∈ ms := by
  constructor
  · intro h
    obtain ⟨before, after, rfl, -⟩ := List.lookup_eq_some_iff.mp h
    exact List.mem_append_right before List.mem_cons_self
  · intro h
    induction ms with
    | nil => cases h
    | cons member ms ih =>
      obtain ⟨hfirst, hmore⟩ := List.nodup_cons.mp hnames
      rcases List.mem_cons.mp h with rfl | h
      · rw [List.lookup_cons, beq_self_eq_true]
      · have hne : (name == member.1) = false := by
          refine beq_eq_false_iff_ne.mpr ?_
          rintro rfl
          exact hfirst (List.mem_map.mpr ⟨_, h, rfl⟩)
        rw [List.lookup_cons, hne]
        exact ih hmore h

theorem lookup_eq_none_of_not_mem (h : name ∉ ms.map Prod.fst) : ms.lookup name = none := by
  refine List.lookup_eq_none_iff.mpr fun member hmember => ?_
  rw [bne_iff_ne]
  rintro rfl
  exact h (List.mem_map_of_mem hmember)

theorem given?_eq_map (default : α) : given? ms name decode default =
    (given? ms name (fun v => (decode v).map some) none).map (·.getD default) := by
  rw [given?, given?]
  cases ms.lookup name with
  | none => rfl
  | some v =>
    dsimp only
    cases decode v <;> rfl

theorem given?_congr {decode' : Value → Option α} (hnames : (ms.map Prod.fst).Nodup)
    (h : ∀ v, (name, v) ∈ ms → decode v = decode' v) (default : α) :
    given? ms name decode default = given? ms name decode' default := by
  rw [given?, given?]
  cases hlookup : ms.lookup name with
  | none => rfl
  | some v => exact h v ((lookup_eq_some_iff hnames).mp hlookup)

/-- Only the members of the name matter. -/
theorem given?_of_same {ms' : List (Text × Value)} (hnames : (ms.map Prod.fst).Nodup)
    (hnames' : (ms'.map Prod.fst).Nodup) (h : ∀ v, (name, v) ∈ ms ↔ (name, v) ∈ ms')
    (default : α) : given? ms name decode default = given? ms' name decode default := by
  have hlookup : ms.lookup name = ms'.lookup name := by
    refine Option.ext fun v => ?_
    rw [lookup_eq_some_iff hnames, lookup_eq_some_iff hnames', h v]
  rw [given?, given?, hlookup]

/-- Two objects have the same members of the names given, in whatever order and among whatever
others. -/
def SameMembers (names : List String) (ms ms' : List (Text × Value)) : Prop :=
  ∀ name ∈ names, ∀ v, (name.toList, v) ∈ ms ↔ (name.toList, v) ∈ ms'

end Given

namespace Slot

/-- Slots of different names, of which setting one leaves the other alone. -/
structure Apart (s t : Slot σ) : Prop where
  name : s.name ≠ t.name
  left : ∀ a draft, s.get (t.set a draft) = s.get draft
  right : ∀ a draft, t.get (s.set a draft) = t.get draft

instance : Std.Symm (Apart (σ := σ)) := ⟨fun _ _ h => ⟨h.name.symm, h.right, h.left⟩⟩

/-- What a slot holds behind all members: what the one of its name gives, or what it held before. -/
def gathered? (slot : Slot σ) (ms : List (Text × Value)) (draft : σ) : Option (Option slot.α) :=
  given? ms slot.name.toList (fun v => (slot.decode v).map some) (slot.get draft)

theorem gathered?_of_ne {slot : Slot σ} {name : Text} (h : slot.name.toList ≠ name) (v : Value)
    (ms : List (Text × Value)) (draft : σ) :
    slot.gathered? ((name, v) :: ms) draft = slot.gathered? ms draft := by
  have hbeq : (slot.name.toList == name) = false := beq_eq_false_iff_ne.mpr h
  rw [gathered?, gathered?, given?, given?, List.lookup_cons, hbeq]

theorem gathered?_named {slot : Slot σ} {name : Text} (h : slot.name.toList = name) (v : Value)
    (ms : List (Text × Value)) (draft : σ) :
    slot.gathered? ((name, v) :: ms) draft = (slot.decode v).map some := by
  rw [gathered?, given?, List.lookup_cons, h, beq_self_eq_true]

section Assign

variable {slots : List (Slot σ)} {draft next : σ} {name : Text} {v : Value}
  {ms : List (Text × Value)}

theorem mem_of_named? {slot : Slot σ} (h : named? slots name = some slot) :
    slot ∈ slots ∧ slot.name.toList = name := by
  rw [named?] at h
  have hname := List.find?_some h
  exact ⟨List.mem_of_find?_eq_some h, by simpa using hname⟩

/-- What a member does to a draft: nothing, or it sets the slot of its name. -/
theorem assign_eq_some (h : assign slots draft (name, v) = some next) :
    ((∀ slot ∈ slots, slot.name.toList ≠ name) ∧ next = draft) ∨
      ∃ slot ∈ slots, slot.name.toList = name ∧
        ∃ a, slot.decode v = some a ∧ next = slot.set a draft := by
  unfold assign at h
  split at h
  · rename_i hnone
    refine Or.inl ⟨fun slot hslot => ?_, (Option.some.inj h).symm⟩
    simpa using List.find?_eq_none.mp hnone slot hslot
  · rename_i slot hnamed
    obtain ⟨hslot, hname⟩ := mem_of_named? hnamed
    split at h
    · cases h
    · obtain ⟨a, ha, hnext⟩ := Option.map_eq_some_iff.mp h
      exact Or.inr ⟨slot, hslot, hname, a, ha, hnext.symm⟩

theorem assign_eq_none (h : assign slots draft (name, v) = none) :
    ∃ slot ∈ slots, slot.name.toList = name ∧ (slot.get draft ≠ none ∨ slot.decode v = none) := by
  unfold assign at h
  split at h
  · cases h
  · rename_i slot hnamed
    obtain ⟨hslot, hname⟩ := mem_of_named? hnamed
    refine ⟨slot, hslot, hname, ?_⟩
    split at h
    · rename_i hset
      exact Or.inl (Option.isSome_iff_ne_none.mp hset)
    · exact Or.inr (Option.map_eq_none_iff.mp h)

variable (hapart : slots.Pairwise Apart)

include hapart

theorem apart_of_ne {s t : Slot σ} (hs : s ∈ slots) (ht : t ∈ slots) (h : s ≠ t) : s.Apart t :=
  hapart.forall hs ht h

/-- Behind a member no slot has lost anything, for the name of the member does not come again. -/
theorem gathered?_assign (hname : name ∉ ms.map Prod.fst)
    (hassign : assign slots draft (name, v) = some next) {slot : Slot σ} (hslot : slot ∈ slots) :
    slot.gathered? ((name, v) :: ms) draft = slot.gathered? ms next := by
  rcases assign_eq_some hassign with ⟨hnone, rfl⟩ | ⟨s, hs, hsname, a, ha, rfl⟩
  · exact gathered?_of_ne (hnone slot hslot) v ms next
  by_cases heq : slot = s
  · rw [heq, gathered?_named hsname, ha, gathered?, given?, hsname,
      lookup_eq_none_of_not_mem hname, s.get_set]
    rfl
  · obtain ⟨hne, hleft, -⟩ := apart_of_ne hapart hslot hs heq
    have hother : slot.name.toList ≠ name := by
      rw [← hsname]
      exact fun h => hne (String.toList_injective h)
    rw [gathered?_of_ne hother, gathered?, gathered?, hleft]

/-- What is gathered from members of different names is what each slot makes of the member of its
name; and nothing is gathered only where a slot makes nothing of it. -/
theorem foldlM_assign (hnames : (ms.map Prod.fst).Nodup)
    (hunset : ∀ slot ∈ slots, slot.name.toList ∈ ms.map Prod.fst → slot.get draft = none) :
    (∀ last, ms.foldlM (assign slots) draft = some last →
      ∀ slot ∈ slots, slot.gathered? ms draft = some (slot.get last)) ∧
    (ms.foldlM (assign slots) draft = none → ∃ slot ∈ slots, slot.gathered? ms draft = none) := by
  induction ms generalizing draft with
  | nil =>
    refine ⟨fun last hlast slot _ => ?_, fun h => ?_⟩
    · obtain rfl := Option.some.inj hlast
      rfl
    · cases h
  | cons member ms ih =>
    obtain ⟨name, v⟩ := member
    obtain ⟨hname, hmore⟩ := List.nodup_cons.mp hnames
    rw [List.foldlM_cons]
    cases hassign : assign slots draft (name, v) with
    | none =>
      obtain ⟨slot, hslot, hslotname, hfails⟩ := assign_eq_none hassign
      refine ⟨fun last hlast => absurd hlast.symm (Option.some_ne_none last), fun _ =>
        ⟨slot, hslot, ?_⟩⟩
      have hget := hunset slot hslot (by rw [hslotname]; exact List.mem_cons_self)
      rw [gathered?_named hslotname, hfails.resolve_left (not_not.mpr hget)]
      rfl
    | some next =>
      have hkept : ∀ slot ∈ slots, slot.gathered? ((name, v) :: ms) draft =
          slot.gathered? ms next := fun slot hslot => gathered?_assign hapart hname hassign hslot
      have hstill : ∀ slot ∈ slots, slot.name.toList ∈ ms.map Prod.fst → slot.get next = none := by
        intro slot hslot hmem
        have hdraft := hunset slot hslot (List.mem_cons_of_mem name hmem)
        rcases assign_eq_some hassign with ⟨-, rfl⟩ | ⟨s, hs, hsname, a, -, rfl⟩
        · exact hdraft
        · have hne : slot ≠ s := by
            rintro rfl
            exact hname (by rw [← hsname]; exact hmem)
          rw [(apart_of_ne hapart hslot hs hne).left, hdraft]
      obtain ⟨hsome, hnone⟩ := ih hmore hstill
      refine ⟨fun last hlast slot hslot => ?_, fun h => ?_⟩
      · rw [hkept slot hslot]
        exact hsome last hlast slot hslot
      · obtain ⟨slot, hslot, hfails⟩ := hnone h
        exact ⟨slot, hslot, by rw [hkept slot hslot, hfails]⟩

end Assign

section Setting

variable {slot : Slot σ} {ms : List (Text × Value)} {draft : σ} (hunset : slot.get draft = none)

include hunset

theorem given?_of_gathered? {last : σ} (h : slot.gathered? ms draft = some (slot.get last))
    (default : slot.α) : given? ms slot.name.toList slot.decode default =
      some ((slot.get last).getD default) := by
  rw [gathered?, hunset] at h
  rw [given?_eq_map, h, Option.map_some]

theorem gathered?_ne_none {a default : slot.α}
    (h : given? ms slot.name.toList slot.decode default = some a) :
    slot.gathered? ms draft ≠ none := by
  intro hnone
  rw [gathered?, hunset] at hnone
  rw [given?_eq_map, hnone] at h
  cases h

end Setting

end Slot

/-- The record of an object in which no name comes twice: what the draft gives in which each slot
holds what it makes of the member of its name, and nothing where a slot makes nothing of it. -/
theorem Record.finished?_members {r : Record σ α} {slots : List (Slot σ)}
    (hapart : slots.Pairwise Slot.Apart) (hblank : ∀ slot ∈ slots, slot.get r.blank = none)
    {ms : List (Text × Value)} (hnames : (ms.map Prod.fst).Nodup) {value? : Option α}
    (hall : ∀ a, value? = some a → ∀ slot ∈ slots, slot.gathered? ms r.blank ≠ none)
    (hfinish : ∀ last, (∀ slot ∈ slots, slot.gathered? ms r.blank = some (slot.get last)) →
      (r.finish .object last).toOption = value?) :
    r.finished? .object (ms.foldlM (Slot.assign slots) r.blank) = value? := by
  obtain ⟨hsome, hnone⟩ :=
    Slot.foldlM_assign hapart hnames fun slot hslot _ => hblank slot hslot
  cases hfold : ms.foldlM (Slot.assign slots) r.blank with
  | some last => exact hfinish last (hsome last hfold)
  | none =>
    refine (Option.eq_none_iff_forall_not_mem.mpr fun a ha => ?_).symm
    obtain ⟨slot, hslot, hfails⟩ := hnone hfold
    exact hall a ha slot hslot hfails

end Json
end SketchPreview
