import SketchPreview.Json.Passing
import SketchPreview.Proofs.Json.Compact

/-!
Any value is passed over, and nothing else with it.

The walk takes one lexeme after the other, so what it does to a phrase is said by where it comes
out: `Leads s ls last` is a walk that takes all of `ls`.  A value leads from any place where one is
expected to what follows a value there, and what stands between brackets leads to their end
(`passed_of_lexed`); so a value nests as deep as it likes, and `takes_skip` is the case in which no
bracket was open.
-/

namespace SketchPreview
namespace Json

namespace Passing

/-- The walk takes these lexemes, all of them, and then looks for `last`.  Before the last of them
it always looks for something. -/
def Leads (s : Passing) : List Lexeme → Option Passing → Prop
  | [], last => last = some s
  | l :: ls, last => ∃ next, s.step l = .ok next ∧
      match next with
      | none => ls = [] ∧ last = none
      | some s => Leads s ls last

theorem leads_single {s : Passing} {l : Lexeme} {next : Option Passing} (h : s.step l = .ok next) :
    s.Leads [l] next := by
  refine ⟨next, h, ?_⟩
  cases next with
  | none => exact ⟨rfl, rfl⟩
  | some s => rfl

theorem Leads.append {s m : Passing} {a b : List Lexeme} {last : Option Passing}
    (ha : s.Leads a (some m)) (hb : m.Leads b last) : s.Leads (a ++ b) last := by
  induction a generalizing s with
  | nil =>
    obtain rfl := Option.some.inj ha
    exact hb
  | cons l a ih =>
    obtain ⟨next, hstep, hnext⟩ := ha
    refine ⟨next, hstep, ?_⟩
    cases next with
    | none => exact absurd hnext.2 (Option.some_ne_none m)
    | some s => exact ih hnext

theorem takes_of_leads {s : Passing} {ls : List Lexeme} (h : s.Leads ls none)
    (rest : List Lexeme) : (run s).Takes () (ls ++ rest) rest := by
  induction ls generalizing s with
  | nil => exact absurd h.symm (Option.some_ne_none s)
  | cons l ls ih =>
    obtain ⟨next, hstep, hnext⟩ := h
    cases next with
    | none =>
      obtain ⟨rfl, -⟩ := hnext
      refine ⟨Nat.lt_succ_self _, ?_⟩
      show run s (l :: rest) = _
      rw [run, hstep]
      rfl
    | some m =>
      obtain ⟨hshorter, hrun⟩ := ih hnext
      refine ⟨Nat.lt_succ_of_lt hshorter, ?_⟩
      show run s (l :: (ls ++ rest)) = _
      rw [run, hstep]
      dsimp only
      rw [hrun]
      rfl

/-! ## Phrases -/

/-- A place where a value is expected, with these brackets open. -/
def Expects (s : Passing) (outer : List Bracket) : Prop :=
  ∀ l : Lexeme, (∀ b, l.token ≠ .closing b) → s.step l = stepValue outer l

/-- The place between brackets, behind the one that opens or behind a value. -/
def between (b : Bracket) (first : Bool) (outer : List Bracket) : Passing :=
  if first then .opened b outer else .next b outer

/-- What the walk does to the lexemes of a phrase. -/
def Passed : Phrase → List Lexeme → Prop
  | .value _, ls => ∀ s outer, Expects s outer → s.Leads ls (afterValue? outer)
  | .elements first _, ls => ∀ outer here behind, (between .list first outer).Leads
      (ls ++ [⟨.closing .list, none, here, behind⟩]) (afterValue? outer)
  | .members first _, ls => ∀ outer here behind, (between .object first outer).Leads
      (ls ++ [⟨.closing .object, none, here, behind⟩]) (afterValue? outer)

theorem expects_value (outer : List Bracket) : Expects (.value outer) outer := fun _ _ => rfl

theorem expects_opened (outer : List Bracket) : Expects (.opened .list outer) (.list :: outer) := by
  intro ⟨token, _, _, _⟩ hl
  cases token with
  | closing b => exact absurd rfl (hl b)
  | _ => rfl

theorem stepValue_isToken {v : Value} {token : Token} (hv : v.IsToken token)
    (outer : List Bracket) (here behind : Text) :
    (∀ b, token ≠ .closing b) ∧
      stepValue outer ⟨token, none, here, behind⟩ = .ok (afterValue? outer) := by
  cases hv <;> exact ⟨fun b => by simp, rfl⟩

/-- Where an element may begin, the walk comes to a place that expects a value. -/
theorem exists_expects {first : Bool} {comma : List Lexeme} (h : IsComma first comma)
    (outer : List Bracket) : ∃ s, Expects s (.list :: outer) ∧
      ∀ ls last, s.Leads ls last → (between .list first outer).Leads (comma ++ ls) last := by
  cases first with
  | true =>
    obtain rfl := h
    exact ⟨_, expects_opened outer, fun _ _ hleads => hleads⟩
  | false =>
    obtain ⟨here, behind, rfl⟩ := h
    exact ⟨_, expects_value _, fun _ _ hleads => ⟨_, rfl, hleads⟩⟩

theorem leads_key {first : Bool} {comma : List Lexeme} (h : IsComma first comma)
    (outer : List Bracket) (name : Text) (here behind here' behind' : Text) :
    (between .object first outer).Leads (comma ++
      [⟨.text (.ok name), none, here, behind⟩, ⟨.colon, none, here', behind'⟩])
      (some (.value (.object :: outer))) := by
  cases first with
  | true =>
    obtain rfl := h
    exact ⟨_, rfl, leads_single rfl⟩
  | false =>
    obtain ⟨_, _, rfl⟩ := h
    exact ⟨_, rfl, _, rfl, leads_single rfl⟩

theorem passed_of_lexed {p : Phrase} {ls : List Lexeme} (h : Lexed p ls) : Passed p ls := by
  induction h with
  | single hv =>
    intro s outer hs
    obtain ⟨hclosing, hstep⟩ := stepValue_isToken hv outer _ _
    exact leads_single ((hs _ hclosing).trans hstep)
  | list _ ih =>
    intro s outer hs
    exact ⟨_, hs _ (by simp), ih outer _ _⟩
  | object _ ih =>
    intro s outer hs
    exact ⟨_, hs _ (by simp), ih outer _ _⟩
  | @noElement first =>
    intro outer here behind
    cases first <;> exact leads_single rfl
  | element hcomma _ _ ihv ihmore =>
    intro outer here behind
    obtain ⟨s, hs, hleads⟩ := exists_expects hcomma outer
    rw [List.append_assoc, List.append_assoc]
    exact hleads _ _ ((ihv s _ hs).append (ihmore outer here behind))
  | @noMember first =>
    intro outer here behind
    cases first <;> exact leads_single rfl
  | @member first name v ms comma ls more here behind here' behind' hcomma _ _ ihv ihmore =>
    intro outer closing rest
    have hkey := leads_key hcomma outer name here behind here' behind'
    have hvalue := ihv _ _ (expects_value (.object :: outer))
    have hwhole := hkey.append (Leads.append hvalue (ihmore outer closing rest))
    simpa using hwhole

end Passing

/-- A value is passed over as a whole. -/
theorem Reader.takes_skip {v : Value} {ls : List Lexeme} (h : Lexed (.value v) ls)
    (rest : List Lexeme) : Reader.skip.Takes () (ls ++ rest) rest :=
  Passing.takes_of_leads (Passing.passed_of_lexed h _ [] (Passing.expects_value [])) rest

end Json
end SketchPreview
