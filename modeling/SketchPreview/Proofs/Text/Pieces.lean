import Mathlib.Data.List.Flatten
import SketchPreview.Proofs.Text.Utf8
import SketchPreview.Text.Pieces

/-!
Cutting at a mark undoes joining with it: pieces that do not hold the mark come out as they went in
(`pieces_intercalate`).  The separator of paths is one byte in UTF-8, so the pieces of the bytes of
a text are the bytes of its pieces (`pieces_encode`).
-/

namespace SketchPreview
namespace Text

section Mark

variable {α : Type} [BEq α] [LawfulBEq α] {mark : α}

theorem pieces_cons_mark (t : List α) : pieces mark (mark :: t) = [] :: pieces mark t := by
  rw [pieces, if_pos (beq_self_eq_true mark)]

theorem pieces_append {a t piece : List α} {more : List (List α)} (ha : mark ∉ a)
    (ht : pieces mark t = piece :: more) : pieces mark (a ++ t) = (a ++ piece) :: more := by
  induction a with
  | nil => exact ht
  | cons x a ih =>
    rw [List.mem_cons, not_or] at ha
    have hx : ¬ (x == mark) = true := by
      rw [beq_iff_eq]
      exact Ne.symm ha.1
    rw [List.cons_append, pieces, if_neg hx, ih ha.2]
    rfl

theorem pieces_of_not_mem {a : List α} (ha : mark ∉ a) : pieces mark a = [a] := by
  have hnil : pieces mark ([] : List α) = [[]] := rfl
  have h := pieces_append ha hnil
  rwa [List.append_nil] at h

theorem pieces_append_mark {a : List α} (ha : mark ∉ a) (t : List α) :
    pieces mark (a ++ mark :: t) = a :: pieces mark t := by
  rw [pieces_append ha (pieces_cons_mark t), List.append_nil]

theorem pieces_mark_append (t : List α) {a : List α} (ha : mark ∉ a) :
    pieces mark (t ++ mark :: a) = pieces mark t ++ [a] := by
  induction t with
  | nil =>
    rw [List.nil_append, pieces_cons_mark, pieces_of_not_mem ha]
    rfl
  | cons x t ih =>
    by_cases hx : x = mark
    · rw [List.cons_append, hx, pieces_cons_mark, pieces_cons_mark, ih, List.cons_append]
    · cases ht : pieces mark t with
      | nil => exact absurd ht (pieces_ne_nil mark t)
      | cons first more =>
        have hsingle : mark ∉ [x] := by simpa using Ne.symm hx
        rw [ht] at ih
        rw [List.cons_append, ← List.singleton_append, pieces_append hsingle ih,
          ← List.singleton_append (x := x) (l := t), pieces_append hsingle ht]
        rfl

theorem not_mem_of_mem_pieces {t piece : List α} (h : piece ∈ pieces mark t) : mark ∉ piece := by
  induction t generalizing piece with
  | nil =>
    obtain rfl : piece = [] := by simpa [pieces] using h
    exact List.not_mem_nil
  | cons x t ih =>
    by_cases hx : x = mark
    · subst hx
      rw [pieces_cons_mark, List.mem_cons] at h
      rcases h with rfl | h
      · exact List.not_mem_nil
      · exact ih h
    · cases ht : pieces mark t with
      | nil => exact absurd ht (pieces_ne_nil mark t)
      | cons first more =>
        have hfirst := ih (by rw [ht]; exact List.mem_cons_self)
        have hsplit := pieces_append (a := [x]) (by simpa using Ne.symm hx) ht
        rw [← List.singleton_append, hsplit, List.mem_cons] at h
        rcases h with rfl | h
        · simpa [Ne.symm hx] using hfirst
        · exact ih (by rw [ht]; exact List.mem_cons_of_mem first h)

theorem pieces_intercalate {parts : List (List α)} (hne : parts ≠ [])
    (h : ∀ part ∈ parts, mark ∉ part) : pieces mark ([mark].intercalate parts) = parts := by
  induction parts with
  | nil => exact absurd rfl hne
  | cons part parts ih =>
    have hpart := h part List.mem_cons_self
    cases parts with
    | nil =>
      rw [List.intercalate_singleton]
      exact pieces_of_not_mem hpart
    | cons next parts =>
      have hrest := ih (List.cons_ne_nil next parts)
        (fun p hp => h p (List.mem_cons_of_mem part hp))
      rw [List.intercalate_cons_cons, List.append_assoc, List.singleton_append,
        pieces_append_mark hpart, hrest]

end Mark

theorem intercalate_cons {α : Type} (mark : α) (part : List α) (parts : List (List α)) :
    [mark].intercalate (part :: parts) = part ++ parts.flatMap (mark :: ·) := by
  induction parts generalizing part with
  | nil => simp
  | cons next parts ih =>
    rw [List.intercalate_cons_cons, ih, List.append_assoc, List.flatMap_cons]
    rfl

theorem mem_intercalate_iff {α : Type} {mark x : α} {parts : List (List α)} (hx : x ≠ mark) :
    x ∈ [mark].intercalate parts ↔ ∃ part ∈ parts, x ∈ part := by
  cases parts with
  | nil => simp
  | cons part parts =>
    rw [intercalate_cons]
    simp [hx]

theorem length_intercalate_le {α : Type} (mark : α) {parts more : List (List α)}
    (h : parts.Sublist more) :
    ([mark].intercalate parts).length ≤ ([mark].intercalate more).length := by
  -- A mark for each piece makes the length a sum over the pieces.
  have hmarks : ∀ parts : List (List α),
      (parts.flatMap (mark :: ·)).length = ([mark].intercalate parts).length +
        if parts = [] then 0 else 1 := by
    intro parts
    cases parts with
    | nil => rfl
    | cons part parts =>
      rw [intercalate_cons]
      simp [Nat.add_comm]
  have hsum : (parts.flatMap (mark :: ·)).length ≤ (more.flatMap (mark :: ·)).length :=
    (h.flatMap (mark :: ·)).length_le
  rw [hmarks, hmarks] at hsum
  by_cases hparts : parts = []
  · simp [hparts]
  · have hmore : more ≠ [] := by
      rintro rfl
      exact hparts (List.sublist_nil.mp h)
    rw [if_neg hparts, if_neg hmore] at hsum
    omega

theorem pieces_encode {mark : Char} (hmark : mark.toNat < 128) (t : Text) :
    pieces (UInt8.ofNat mark.toNat) (Utf8.encode t) = (pieces mark t).map Utf8.encode := by
  induction t with
  | nil => rfl
  | cons c t ih =>
    by_cases hc : c = mark
    · subst hc
      rw [Utf8.encode_cons, Utf8.utf8EncodeChar_of_lt hmark, List.singleton_append,
        pieces_cons_mark, pieces_cons_mark, ih]
      rfl
    · have hbytes : UInt8.ofNat mark.toNat ∉ String.utf8EncodeChar c := by
        rw [Utf8.mem_utf8EncodeChar_iff hmark]
        exact hc
      cases ht : pieces mark t with
      | nil => exact absurd ht (pieces_ne_nil mark t)
      | cons piece more =>
        rw [ht, List.map_cons] at ih
        have hsplit := pieces_append (a := [c]) (by simpa using Ne.symm hc) ht
        rw [Utf8.encode_cons, pieces_append hbytes ih]
        show _ = (pieces mark ([c] ++ t)).map Utf8.encode
        rw [hsplit]
        rfl

end Text
end SketchPreview
