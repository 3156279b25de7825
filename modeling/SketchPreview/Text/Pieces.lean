/-!
Cutting a list at a mark.  Every mark cuts, so there is one piece more than there are marks, and
joining the pieces gives the list back (`intercalate_pieces`).
-/

namespace SketchPreview
namespace Text

/-- The pieces between the marks of a list, empty ones included. -/
def pieces [BEq α] (mark : α) : List α → List (List α)
  | [] => [[]]
  | a :: rest =>
    if a == mark then [] :: pieces mark rest
    else
      match pieces mark rest with
      | [] => [[a]]
      | piece :: more => (a :: piece) :: more

theorem pieces_ne_nil [BEq α] (mark : α) (t : List α) : pieces mark t ≠ [] := by
  cases t with
  | nil => simp [pieces]
  | cons a rest =>
    simp only [pieces]
    split
    · simp
    · split <;> simp

theorem intercalate_pieces [BEq α] [LawfulBEq α] (mark : α) (t : List α) :
    [mark].intercalate (pieces mark t) = t := by
  induction t with
  | nil => simp [pieces, List.intercalate]
  | cons a rest ih =>
    simp only [pieces]
    cases hp : pieces mark rest with
    | nil => exact absurd hp (pieces_ne_nil mark rest)
    | cons piece more =>
      rw [hp] at ih
      by_cases ha : a = mark
      · subst ha
        simpa [List.intercalate] using ih
      · cases more <;> simp_all [List.intercalate]

end Text
end SketchPreview
