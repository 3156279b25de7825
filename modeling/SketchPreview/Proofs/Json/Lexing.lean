import SketchPreview.Json.Lexeme
import SketchPreview.Proofs.Json.Numeral
import SketchPreview.Proofs.Json.Quoted

/-!
The lexemes of the texts of the grammar.

`Lexed` is the grammar again, over lexemes and not over characters: white space is gone, and a value
that has no parts is one lexeme (`Value.IsToken`).  `lexed_of_spells` says that a text of the first
gives lexemes of the second and nothing else, whatever follows it that a number does not go on with;
so it is enough for what is said of readers to look at lexemes.
-/

namespace SketchPreview
namespace Json

open Text

/-! ## One lexeme -/

namespace Lexeme

/-- The lexemes of a text are those from its first character on that is no white space. -/
theorem ofText_eq (t : Text) : ofText t =
    match t.dropWhile isSpace with
    | [] => []
    | c :: rest =>
      match front c rest with
      | .impassable token f => [⟨token, some f, c :: rest, rest⟩]
      | .passable token behind => ⟨token, none, c :: rest, behind⟩ :: ofText behind := by
  rw [ofText]
  split
  · rename_i hdrop
    simp only [hdrop]
  · rename_i hdrop
    split
    · rename_i hfront
      simp only [hdrop, hfront]
    · rename_i hfront
      simp only [hdrop, hfront]

theorem ofText_cons {c : Char} {rest behind : Text} {token : Token} (hc : isSpace c = false)
    (h : front c rest = .passable token behind) :
    ofText (c :: rest) = ⟨token, none, c :: rest, behind⟩ :: ofText behind := by
  rw [ofText_eq, List.dropWhile_cons_of_neg (by simp [hc])]
  dsimp only
  rw [h]

theorem ofText_mark {c : Char} {token : Token} (hc : isSpace c = false)
    (h : start c = .mark token) (rest : Text) :
    ofText (c :: rest) = ⟨token, none, c :: rest, rest⟩ :: ofText rest :=
  ofText_cons hc (by rw [front, h])

theorem ofText_space {w : Text} (hw : IsSpace w) (rest : Text) :
    ofText (w ++ rest) = ofText rest := by
  have hspace : ∀ c ∈ w, isSpace c = true := by
    intro c hc
    rcases hw c hc with rfl | rfl | rfl | rfl <;> rfl
  rw [ofText_eq (w ++ rest), List.dropWhile_append_of_pos hspace, ← ofText_eq]

theorem ofText_nil : ofText [] = [] := by
  rw [ofText_eq]
  rfl

theorem ofText_literal {t w : Text} (h : SpellsText t w) (rest : Text) :
    ofText (w ++ rest) = ⟨.text (.ok t), none, w ++ rest, rest⟩ :: ofText rest := by
  obtain ⟨parts, hparts, rfl⟩ := h
  have hbehind : '"' :: (parts.flatten ++ ['"']) ++ rest =
      '"' :: (parts.flatten ++ '"' :: rest) := by
    rw [List.cons_append, List.append_assoc, List.singleton_append]
  rw [hbehind]
  refine ofText_cons rfl ?_
  show literal _ = _
  rw [literal, Quoted.skip_literal hparts, Quoted.read_literal hparts]
  rfl

theorem start_of_isDigit {c : Char} (h : c.isDigit = true) :
    isSpace c = false ∧ start c = .numeral := by
  have hne : ∀ d : Char, d.isDigit = false → (c == d) = false := by
    intro d hd
    rw [beq_eq_false_iff_ne]
    rintro rfl
    simp [h] at hd
  constructor
  · simp only [isSpace, hne ' ' rfl, hne '\n' rfl, hne '\t' rfl, hne '\r' rfl, Bool.or_false]
  · simp only [start, hne '{' rfl, hne '}' rfl, hne '[' rfl, hne ']' rfl, hne ',' rfl, hne ':' rfl,
      hne '"' rfl, hne 'n' rfl, hne 't' rfl, hne 'f' rfl, h, Bool.or_true, if_true]
    rfl

theorem start_of_mem_numerals {w : Text} (hw : w ∈ numerals) :
    ∃ c rest, w = c :: rest ∧ isSpace c = false ∧ start c = .numeral := by
  obtain ⟨s, hs, _, hbehind, rfl⟩ := Language.mem_mul.mp hw
  obtain ⟨v, hv, u, -, rfl⟩ := Language.mem_mul.mp hbehind
  rcases mem_optional_iff.mp hs with rfl | ⟨sign, hsign, rfl⟩
  · obtain ⟨hne, hall, -⟩ := Numeral.mem_wholes_iff.mp hv
    cases v with
    | nil => exact absurd rfl hne
    | cons d v => exact ⟨d, v ++ u, rfl, start_of_isDigit (hall d List.mem_cons_self)⟩
  · refine ⟨sign, v ++ u, rfl, ?_⟩
    rw [beq_iff_eq.mp hsign]
    exact ⟨rfl, rfl⟩

theorem ofText_number {w rest : Text} (hw : w ∈ numerals) (hrest : Numeral.stops rest = true) :
    ∃ number, ofText (w ++ rest) = ⟨.number number, none, w ++ rest, rest⟩ :: ofText rest ∧
      ∀ k, number = .ok (.natural k) ↔
        (∀ c ∈ w, c.isDigit = true) ∧ Nat.ofDigitChars 10 w 0 = k ∧ k < UInt64.size := by
  obtain ⟨number, hread, hnatural⟩ := Number.read_append hw hrest
  refine ⟨number, ?_, hnatural⟩
  obtain ⟨c, behind, rfl, hspace, hstart⟩ := start_of_mem_numerals hw
  rw [List.cons_append] at hread ⊢
  refine ofText_cons hspace ?_
  rw [front, hstart]
  show Lexeme.number _ = _
  rw [Lexeme.number, hread]

end Lexeme

/-! ## Phrases -/

/-- A token that is the whole of a value. -/
inductive Value.IsToken : Value → Token → Prop
  | null : IsToken .null .null
  | boolean (b : Bool) : IsToken (.boolean b) (.boolean b)
  | number {w : Text} {number : Except Fault Number} (h : ∀ k, number = .ok (.natural k) ↔
      (∀ c ∈ w, c.isDigit = true) ∧ Nat.ofDigitChars 10 w 0 = k ∧ k < UInt64.size) :
      IsToken (.number w) (.number number)
  | text (t : Text) : IsToken (.text t) (.text (.ok t))

/-- A comma in front of what is not the first. -/
def IsComma (first : Bool) (ls : List Lexeme) : Prop :=
  if first then ls = [] else ∃ here behind, ls = [⟨.comma, none, here, behind⟩]

inductive Lexed : Phrase → List Lexeme → Prop
  | single {v : Value} {token : Token} {here behind : Text} (hv : v.IsToken token) :
      Lexed (.value v) [⟨token, none, here, behind⟩]
  | list {vs : List Value} {ls : List Lexeme} {here behind here' behind' : Text}
      (h : Lexed (.elements true vs) ls) :
      Lexed (.value (.list vs)) (⟨.opening .list, none, here, behind⟩ ::
        (ls ++ [⟨.closing .list, none, here', behind'⟩]))
  | object {ms : List (Text × Value)} {ls : List Lexeme} {here behind here' behind' : Text}
      (h : Lexed (.members true ms) ls) :
      Lexed (.value (.object ms)) (⟨.opening .object, none, here, behind⟩ ::
        (ls ++ [⟨.closing .object, none, here', behind'⟩]))
  | noElement {first : Bool} : Lexed (.elements first []) []
  | element {first : Bool} {v : Value} {vs : List Value} {comma ls more : List Lexeme}
      (hcomma : IsComma first comma) (hv : Lexed (.value v) ls)
      (hmore : Lexed (.elements false vs) more) :
      Lexed (.elements first (v :: vs)) (comma ++ (ls ++ more))
  | noMember {first : Bool} : Lexed (.members first []) []
  | member {first : Bool} {name : Text} {v : Value} {ms : List (Text × Value)}
      {comma ls more : List Lexeme} {here behind here' behind' : Text}
      (hcomma : IsComma first comma) (hv : Lexed (.value v) ls)
      (hmore : Lexed (.members false ms) more) :
      Lexed (.members first ((name, v) :: ms)) (comma ++ (⟨.text (.ok name), none, here, behind⟩ ::
        ⟨.colon, none, here', behind'⟩ :: (ls ++ more)))

/-- A value begins with a lexeme that ends nothing. -/
theorem Lexed.exists_cons {v : Value} {ls : List Lexeme} (h : Lexed (.value v) ls) :
    ∃ l more, ls = l :: more ∧ ∀ b, l.token ≠ .closing b := by
  cases h with
  | single hv => cases hv <;> exact ⟨_, _, rfl, fun b => by simp⟩
  | list _ => exact ⟨_, _, rfl, fun b => by simp⟩
  | object _ => exact ⟨_, _, rfl, fun b => by simp⟩

/-! ## From texts to lexemes -/

theorem stops_space {w rest : Text} (hw : IsSpace w) (hrest : Numeral.stops rest = true) :
    Numeral.stops (w ++ rest) = true := by
  cases w with
  | nil => exact hrest
  | cons c w => rcases hw c List.mem_cons_self with rfl | rfl | rfl | rfl <;> rfl

theorem stops_separator {s : Text} (h : Separates false s) (rest : Text) :
    Numeral.stops (s ++ rest) = true := by
  obtain ⟨a, b, ha, -, rfl⟩ := h
  rw [List.append_assoc]
  exact stops_space ha rfl

theorem stops_elements {vs : List Value} {w rest : Text} (h : Spells (.elements false vs) w)
    (hrest : Numeral.stops rest = true) : Numeral.stops (w ++ rest) = true := by
  cases h with
  | noElement hspace => exact stops_space hspace hrest
  | element hs _ _ =>
    rw [List.append_assoc]
    exact stops_separator hs _

theorem stops_members {ms : List (Text × Value)} {w rest : Text} (h : Spells (.members false ms) w)
    (hrest : Numeral.stops rest = true) : Numeral.stops (w ++ rest) = true := by
  cases h with
  | noMember hspace => exact stops_space hspace hrest
  | member hs _ _ _ _ _ =>
    rw [List.append_assoc]
    exact stops_separator hs _

theorem exists_comma {first : Bool} {s : Text} (h : Separates first s) (rest : Text) :
    ∃ comma, IsComma first comma ∧
      Lexeme.ofText (s ++ rest) = comma ++ Lexeme.ofText rest := by
  cases first with
  | true => exact ⟨[], rfl, Lexeme.ofText_space h rest⟩
  | false =>
    obtain ⟨a, b, ha, hb, rfl⟩ := h
    rw [List.append_assoc, Lexeme.ofText_space ha, List.cons_append, Lexeme.ofText_mark rfl rfl,
      Lexeme.ofText_space hb]
    exact ⟨[_], ⟨_, _, rfl⟩, rfl⟩

/-- A text of the grammar gives the lexemes of its phrase and nothing else. -/
theorem lexed_of_spells {p : Phrase} {t : Text} (h : Spells p t) {rest : Text}
    (hrest : Numeral.stops rest = true) :
    ∃ ls, Lexeme.ofText (t ++ rest) = ls ++ Lexeme.ofText rest ∧ Lexed p ls := by
  induction h generalizing rest with
  | null => exact ⟨[_], Lexeme.ofText_cons rfl rfl, .single .null⟩
  | boolean b =>
    cases b
    · exact ⟨[_], Lexeme.ofText_cons rfl rfl, .single (.boolean _)⟩
    · exact ⟨[_], Lexeme.ofText_cons rfl rfl, .single (.boolean _)⟩
  | number hw =>
    obtain ⟨number, hlexemes, hnatural⟩ := Lexeme.ofText_number hw hrest
    exact ⟨[_], hlexemes, .single (.number hnatural)⟩
  | text hw => exact ⟨[_], Lexeme.ofText_literal hw rest, .single (.text _)⟩
  | @list vs w _ ih =>
    have hstops : Numeral.stops (']' :: rest) = true := rfl
    obtain ⟨ls, hlexemes, hls⟩ := ih hstops
    rw [List.cons_append, List.append_assoc, List.singleton_append, Lexeme.ofText_mark rfl rfl,
      hlexemes, Lexeme.ofText_mark rfl rfl, List.append_cons ls]
    exact ⟨_, rfl, .list hls⟩
  | @object ms w _ ih =>
    have hstops : Numeral.stops ('}' :: rest) = true := rfl
    obtain ⟨ls, hlexemes, hls⟩ := ih hstops
    rw [List.cons_append, List.append_assoc, List.singleton_append, Lexeme.ofText_mark rfl rfl,
      hlexemes, Lexeme.ofText_mark rfl rfl, List.append_cons ls]
    exact ⟨_, rfl, .object hls⟩
  | noElement hw => exact ⟨[], Lexeme.ofText_space hw rest, .noElement⟩
  | element hs _ hmore ihv ihmore =>
    obtain ⟨more, hlexemes, hmorelexed⟩ := ihmore hrest
    obtain ⟨ls, hvalue, hls⟩ := ihv (stops_elements hmore hrest)
    obtain ⟨comma, hcomma, hseparator⟩ := exists_comma hs _
    refine ⟨_, ?_, .element hcomma hls hmorelexed⟩
    rw [List.append_assoc, List.append_assoc, hseparator, hvalue, hlexemes, List.append_assoc,
      List.append_assoc]
  | noMember hw => exact ⟨[], Lexeme.ofText_space hw rest, .noMember⟩
  | member hs hname ha hb _ hmore ihv ihmore =>
    obtain ⟨more, hlexemes, hmorelexed⟩ := ihmore hrest
    obtain ⟨ls, hvalue, hls⟩ := ihv (stops_members hmore hrest)
    obtain ⟨comma, hcomma, hseparator⟩ := exists_comma hs _
    rw [List.append_assoc, hseparator, List.append_assoc, Lexeme.ofText_literal hname,
      List.append_assoc, Lexeme.ofText_space ha, List.cons_append, Lexeme.ofText_mark rfl rfl,
      List.append_assoc, Lexeme.ofText_space hb, List.append_assoc, hvalue, hlexemes,
      ← List.append_assoc ls]
    exact ⟨_, (List.append_assoc comma (_ :: _ :: (ls ++ more)) _).symm,
      .member hcomma hls hmorelexed⟩

/-- The lexemes of a document are those of its value. -/
theorem lexed_of_document {v : Value} {t : Text} (h : Document v t) :
    Lexed (.value v) (Lexeme.ofText t) := by
  obtain ⟨a, w, b, ha, hw, hb, rfl⟩ := h
  have hend : Lexeme.ofText b = [] := by
    rw [← List.append_nil b, Lexeme.ofText_space hb, Lexeme.ofText_nil]
  have hstops : Numeral.stops b = true := by
    rw [← List.append_nil b]
    exact stops_space hb rfl
  obtain ⟨ls, hlexemes, hls⟩ := lexed_of_spells hw hstops
  rw [Lexeme.ofText_space ha, hlexemes, hend, List.append_nil]
  exact hls

end Json
end SketchPreview
