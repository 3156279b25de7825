import SketchPreview.Proofs.Json.Passing

/-!
What readers make of values.

`Reader.Decides` says of a reader that it gives of every value what a function on values says, and a
fault where that says nothing, whichever lexemes the value is written with.  The readers of single
values, of lists and of records are shown to be of this kind one after the other, and
`gives_document` is what a whole text then is.  The fields of a record are `Slot`s, of which each
brings along what it makes of a value; members are taken in one after the other (`assign`), elements
in the order of the slots (`fill`).
-/

namespace SketchPreview
namespace Json

/-! ## Values -/

namespace Value

def boolean? : Value → Option Bool
  | .boolean b => some b
  | _ => none

def text? : Value → Option Text
  | .text t => some t
  | _ => none

/-- A number that is written with digits alone and is below `bound`. -/
def natural? (bound : Nat) : Value → Option { n : Nat // n < bound }
  | .number w =>
    if w.all Char.isDigit then
      if h : Nat.ofDigitChars 10 w 0 < bound then some ⟨Nat.ofDigitChars 10 w 0, h⟩ else none
    else none
  | _ => none

def word32? (v : Value) : Option UInt32 :=
  (v.natural? UInt32.size).map fun ⟨n, h⟩ => UInt32.ofNatLT n h

def word64? (v : Value) : Option UInt64 :=
  (v.natural? UInt64.size).map fun ⟨n, h⟩ => UInt64.ofNatLT n h

def list? (decode : Value → Option α) : Value → Option (List α)
  | .list vs => vs.mapM decode
  | _ => none

end Value

/-! ## Going on between brackets -/

theorem Turn.exists_inList {first : Bool} {comma : List Lexeme} (hcomma : IsComma first comma)
    {l : Lexeme} (hl : ∀ b, l.token ≠ .closing b) (more : List Lexeme) :
    ∃ h, Turn.inList first (comma ++ l :: more) = .ok (.further (l :: more) h) := by
  cases first with
  | true =>
    obtain rfl := hcomma
    exact ⟨_, inList_first (hl .list) more⟩
  | false =>
    obtain ⟨here, behind, rfl⟩ := hcomma
    exact ⟨_, inList_comma rfl (hl .list) more⟩

theorem Turn.exists_inObject {first : Bool} {comma : List Lexeme} (hcomma : IsComma first comma)
    {l : Lexeme} {key : Except Fault Text} (hl : l.token = .text key) (more : List Lexeme) :
    ∃ h, Turn.inObject first (comma ++ l :: more) = .ok (.further (l :: more) h) := by
  cases first with
  | true =>
    obtain rfl := hcomma
    exact ⟨_, inObject_first hl more⟩
  | false =>
    obtain ⟨here, behind, rfl⟩ := hcomma
    exact ⟨_, inObject_comma rfl hl more⟩

theorem Closing.ofList_closing {l : Lexeme} (hl : l.token = .closing .list) (rest : List Lexeme) :
    Closing.ofList (l :: rest) = .ok (.first l rest) := by
  rw [ofList, hl]

/-- Where a list should end, neither a comma nor an element may stand. -/
theorem Closing.ofList_fails {first : Bool} {comma : List Lexeme} (hcomma : IsComma first comma)
    {l : Lexeme} (hl : ∀ b, l.token ≠ .closing b) (more : List Lexeme) :
    ∃ fault, Closing.ofList (comma ++ l :: more) = .error fault := by
  have hfails : ∀ (k : Lexeme) (ks : List Lexeme), k.token ≠ .closing .list →
      ∃ fault, ofList (k :: ks) = .error fault := by
    intro ⟨token, _, _, _⟩ ks hk
    cases token with
    | closing b =>
      cases b with
      | list => exact absurd rfl hk
      | object => exact ⟨_, rfl⟩
    | comma =>
      cases ks with
      | nil => exact ⟨_, rfl⟩
      | cons next more =>
        unfold ofList
        dsimp only
        split <;> exact ⟨_, rfl⟩
    | _ => exact ⟨_, rfl⟩
  cases first with
  | true =>
    obtain rfl := hcomma
    exact hfails l more (hl .list)
  | false =>
    obtain ⟨here, behind, rfl⟩ := hcomma
    exact hfails _ _ (by simp)

/-! ## What a reader gives -/

namespace Reader

/-- A reader takes the value off the front of `input` and leaves `rest`, or fails where there is
none. -/
def Gives (read : Reader α) (value? : Option α) (input rest : List Lexeme) : Prop :=
  match value? with
  | some a => read.Takes a input rest
  | none => ∃ fault, read input = .error fault

/-- A reader gives of every value what `decode` says. -/
def Decides (read : Reader α) (decode : Value → Option α) : Prop :=
  ∀ v ls, Lexed (.value v) ls → ∀ rest, read.Gives (decode v) (ls ++ rest) rest

theorem Gives.map {read : Reader α} {value? : Option α} {input rest : List Lexeme}
    (h : read.Gives value? input rest) (f : α → β) :
    (read.map f).Gives (value?.map f) input rest := by
  cases value? with
  | some a => exact Takes.map h f
  | none =>
    obtain ⟨fault, hread⟩ := h
    exact ⟨fault, by rw [Reader.map, hread]⟩

theorem Gives.of_eq {read read' : Reader α} {value? : Option α} {input rest : List Lexeme}
    (h : read.Gives value? input rest) (heq : read' input = read input) :
    read'.Gives value? input rest := by
  cases value? with
  | some a =>
    obtain ⟨hshorter, hread⟩ := h
    exact ⟨hshorter, heq.trans hread⟩
  | none =>
    obtain ⟨fault, hread⟩ := h
    exact ⟨fault, heq.trans hread⟩

theorem Decides.map {read : Reader α} {decode : Value → Option α} (h : read.Decides decode)
    (f : α → β) : (read.map f).Decides fun v => (decode v).map f :=
  fun v ls hv rest => (h v ls hv rest).map f

theorem Takes.gives_andThen {read : Reader α} {next : α → Reader β} {a : α} {value? : Option β}
    {input middle rest : List Lexeme} (h : read.Takes a input middle)
    (hnext : (next a).Gives value? middle rest) : (read.andThen next).Gives value? input rest := by
  cases value? with
  | some b => exact h.andThen hnext
  | none =>
    obtain ⟨hshorter, hread⟩ := h
    obtain ⟨fault, hfault⟩ := hnext
    refine ⟨fault, ?_⟩
    rw [Reader.andThen, hread]
    dsimp only
    rw [hfault]

theorem Gives.andThen {read : Reader α} {next : α → Reader β} {a? : Option α} {b? : α → Option β}
    {input middle rest : List Lexeme} (h : read.Gives a? input middle)
    (hnext : ∀ a, (next a).Gives (b? a) middle rest) :
    (read.andThen next).Gives (a?.bind b?) input rest := by
  cases a? with
  | some a => exact Takes.gives_andThen h (hnext a)
  | none =>
    obtain ⟨fault, hread⟩ := h
    exact ⟨fault, by rw [Reader.andThen, hread]⟩

/-- What is given in front of less is given where a reader does the same with more in front. -/
theorem Gives.widen {read read' : Reader α} {value? : Option α} {front input rest : List Lexeme}
    (h : read.Gives value? front rest) {hle : front.length ≤ input.length}
    (heq : read' input = (read front).map (Read.widen hle)) : read'.Gives value? input rest := by
  cases value? with
  | some a => exact Takes.widen h heq
  | none =>
    obtain ⟨fault, hread⟩ := h
    rw [hread] at heq
    exact ⟨fault, heq⟩

theorem gives_document {read : Reader α} {decode : Value → Option α} (h : read.Decides decode)
    {v : Value} {t : Text} (ht : Document v t) : (read.document t).toOption = decode v := by
  have hgives := h v _ (lexed_of_document ht) []
  rw [List.append_nil] at hgives
  rw [document]
  cases hv : decode v with
  | some a =>
    rw [hv] at hgives
    obtain ⟨hshorter, hread⟩ := hgives
    rw [hread]
    rfl
  | none =>
    rw [hv] at hgives
    obtain ⟨fault, hread⟩ := hgives
    rw [hread]
    rfl

/-! ## Single values -/

/-- The value of a token that is accepted without fault. -/
def accepted? (accept : Token → Option (Except Reason α)) (token : Token) : Option α :=
  (accept token).bind Except.toOption

theorem gives_single {expected : Shape} {accept : Token → Option (Except Reason α)} (l : Lexeme)
    (rest : List Lexeme) :
    (single expected accept).Gives (accepted? accept l.token) (l :: rest) rest := by
  rw [accepted?]
  cases haccept : accept l.token with
  | none => exact ⟨_, by rw [single, haccept]⟩
  | some answer =>
    cases answer with
    | ok a => exact takes_single haccept rest
    | error reason => exact ⟨_, by rw [single, haccept]⟩

theorem single_of_not_accepted {expected : Shape} {accept : Token → Option (Except Reason α)}
    {l : Lexeme} (h : accepted? accept l.token = none) (rest : List Lexeme) :
    ∃ fault, single expected accept (l :: rest) = .error fault := by
  have hgives : (single expected accept).Gives _ _ _ := gives_single l rest
  rwa [h] at hgives

theorem decides_single {expected : Shape} {accept : Token → Option (Except Reason α)}
    {decode : Value → Option α}
    (htoken : ∀ v token, v.IsToken token → accepted? accept token = decode v)
    (hlist : accepted? accept (.opening .list) = none ∧ ∀ vs, decode (.list vs) = none)
    (hobject : accepted? accept (.opening .object) = none ∧ ∀ ms, decode (.object ms) = none) :
    (single expected accept).Decides decode := by
  intro v ls h rest
  cases h with
  | single hv =>
    rw [← htoken v _ hv]
    exact gives_single ⟨_, none, _, _⟩ rest
  | list h =>
    rw [hlist.2]
    exact single_of_not_accepted hlist.1 _
  | object h =>
    rw [hobject.2]
    exact single_of_not_accepted hobject.1 _

theorem decides_boolean : boolean.Decides Value.boolean? := by
  refine decides_single ?_ ⟨rfl, fun _ => rfl⟩ ⟨rfl, fun _ => rfl⟩
  intro v token h
  cases h <;> rfl

theorem decides_textAs (expected : Shape) : (textAs expected).Decides Value.text? := by
  refine decides_single ?_ ⟨rfl, fun _ => rfl⟩ ⟨rfl, fun _ => rfl⟩
  intro v token h
  cases h <;> rfl

theorem natural?_eq_some_iff {bound : Nat} {w : Text} {n : { n : Nat // n < bound }} :
    (Value.number w).natural? bound = some n ↔
      (∀ c ∈ w, c.isDigit = true) ∧ Nat.ofDigitChars 10 w 0 = n.1 := by
  rw [Value.natural?, ← List.all_eq_true]
  by_cases hdigits : w.all Char.isDigit = true
  · rw [if_pos hdigits, and_iff_right hdigits]
    by_cases hbound : Nat.ofDigitChars 10 w 0 < bound
    · rw [dif_pos hbound, Option.some.injEq, Subtype.ext_iff]
    · rw [dif_neg hbound]
      refine iff_of_false (Option.some_ne_none n).symm ?_
      intro h
      exact hbound (by rw [h]; exact n.2)
  · rw [if_neg hdigits]
    exact iff_of_false (Option.some_ne_none n).symm fun h => hdigits h.1

theorem decides_natural (expected : Shape) {bound : Nat} (hbound : bound ≤ UInt64.size) :
    (natural expected bound).Decides (Value.natural? bound) := by
  refine decides_single ?_ ⟨rfl, fun _ => rfl⟩ ⟨rfl, fun _ => rfl⟩
  intro v token h
  cases h with
  | null | boolean | text => rfl
  | @number w number hnatural =>
    refine Option.ext fun n => ?_
    rw [natural?_eq_some_iff]
    constructor
    · intro h
      cases number with
      | error fault => cases h
      | ok number =>
        cases number with
        | negative k => cases h
        | real bits => cases h
        | natural k =>
          obtain ⟨hdigits, hk, -⟩ := (hnatural k).mp rfl
          rw [accepted?] at h
          dsimp only at h
          by_cases hlt : k < bound
          · rw [dif_pos hlt] at h
            exact ⟨hdigits, hk.trans (congrArg Subtype.val (Option.some.inj h))⟩
          · rw [dif_neg hlt] at h
            cases h
    · intro h
      have hnumber : number = .ok (.natural n.1) :=
        (hnatural n.1).mpr ⟨h.1, h.2, Nat.lt_of_lt_of_le n.2 hbound⟩
      rw [hnumber, accepted?]
      dsimp only
      rw [Option.bind_some, dif_pos n.2]
      rfl

theorem decides_word32 : word32.Decides Value.word32? :=
  (decides_natural .word32 (by decide)).map _

theorem decides_word64 : word64.Decides Value.word64? :=
  (decides_natural .word64 (Nat.le_refl _)).map _

/-! ## Lists -/

theorem gives_elements {read : Reader α} {decode : Value → Option α} (hread : read.Decides decode)
    {first : Bool} {vs : List Value} {ls : List Lexeme} (h : Lexed (.elements first vs) ls)
    (here behind : Text) (rest : List Lexeme) :
    Gives (elements read first) (vs.mapM decode)
      (ls ++ ⟨.closing .list, none, here, behind⟩ :: rest) rest := by
  induction vs generalizing first ls with
  | nil =>
    cases h
    exact takes_elements_closing rfl rest
  | cons v vs ih =>
    cases h with
    | element hcomma hv hmore =>
      have hvalue := hread v _ hv
      obtain ⟨l, tail, rfl, hl⟩ := hv.exists_cons
      obtain ⟨_, hturn⟩ := Turn.exists_inList hcomma hl _
      have hboth := (hvalue _).andThen fun a => (ih hmore).map (a :: ·)
      simp only [Option.map_eq_bind] at hboth
      rw [List.append_assoc, List.append_assoc, List.mapM_cons]
      exact hboth.widen (elements_further hturn)

theorem decides_list {read : Reader α} {decode : Value → Option α} (hread : read.Decides decode) :
    (list read).Decides (Value.list? decode) := by
  intro v ls h rest
  cases h with
  | single hv => cases hv <;> exact ⟨_, rfl⟩
  | object h => exact ⟨_, rfl⟩
  | list h =>
    rw [List.cons_append, List.append_assoc]
    exact (gives_elements hread h _ _ rest).widen (list_opening rfl _)

end Reader

/-! ## Records -/

/-- A field of a record whose draft is a `σ`, with what its reader makes of values. -/
structure Slot (σ : Type) where
  {α : Type}
  name : String
  read : Reader α
  decode : Value → Option α
  get : σ → Option α
  set : α → σ → σ
  decides : read.Decides decode
  get_set : ∀ a draft, get (set a draft) = some a

namespace Slot

def field (slot : Slot σ) : Field σ := .of slot.name slot.read slot.get slot.set

/-- The slot that a member is for. -/
def named? (slots : List (Slot σ)) (name : Text) : Option (Slot σ) :=
  slots.find? fun slot => slot.name.toList == name

/-- The draft behind a member.  A slot is not set twice. -/
def assign (slots : List (Slot σ)) (draft : σ) (member : Text × Value) : Option σ :=
  match named? slots member.1 with
  | none => some draft
  | some slot =>
    if (slot.get draft).isSome then none
    else (slot.decode member.2).map fun a => slot.set a draft

/-- The draft behind the elements of a list. -/
def fill : List (Slot σ) → List Value → σ → Option σ
  | _, [], draft => some draft
  | [], _ :: _, _ => none
  | slot :: slots, v :: vs, draft => (slot.decode v).bind fun a => fill slots vs (slot.set a draft)

theorem find?_field (slots : List (Slot σ)) (name : Text) :
    (slots.map field).find? (fun field => field.name == name) = (named? slots name).map field :=
  List.find?_map

theorem gives_member {fields : List (Field σ)} {slots : List (Slot σ)}
    (hfields : fields = slots.map field) (draft : σ) (name : Text) {v : Value} {ls : List Lexeme}
    (h : Lexed (.value v) ls) (here behind here' behind' : Text) (rest : List Lexeme) :
    (Record.member fields draft).Gives (assign slots draft (name, v))
      (⟨.text (.ok name), none, here, behind⟩ :: ⟨.colon, none, here', behind'⟩ :: (ls ++ rest))
      rest := by
  refine Reader.Takes.gives_andThen (Reader.takes_textAs rfl _) ?_
  rw [hfields, find?_field, assign]
  cases named? slots name with
  | none =>
    exact Reader.Takes.gives_andThen (Record.takes_colon _ _ _) ((Reader.takes_skip h rest).map _)
  | some slot =>
    dsimp only [Option.map_some]
    by_cases hset : (slot.get draft).isSome = true
    · rw [if_pos hset]
      exact ⟨_, if_pos hset⟩
    · rw [if_neg hset]
      have hvalue := (slot.decides v ls h rest).map fun a => slot.set a draft
      exact (Reader.Takes.gives_andThen (Record.takes_colon _ _ _) hvalue).of_eq (if_neg hset)

end Slot

namespace Record

variable {σ α : Type} (r : Record σ α)

/-- The record of a draft, if there is one. -/
def finished? (b : Bracket) (draft? : Option σ) : Option α :=
  draft?.bind fun draft => (r.finish b draft).toOption

/-- What the record is that a value stands for. -/
def decode? (slots : List (Slot σ)) : Value → Option α
  | .object ms => r.finished? .object (ms.foldlM (Slot.assign slots) r.blank)
  | .list vs => r.finished? .list (Slot.fill slots vs r.blank)
  | _ => none

variable {r}

theorem gives_members_closing (first : Bool) (draft : σ) {l : Lexeme}
    (hl : l.token = .closing .object) (rest : List Lexeme) :
    Reader.Gives (r.members first draft) (r.finish .object draft).toOption (l :: rest) rest := by
  cases hfinish : r.finish .object draft with
  | ok a => exact takes_members_closing hfinish hl rest
  | error reason =>
    refine ⟨.behind reason l.behind, ?_⟩
    rw [members, Turn.inObject_closing first hl]
    dsimp only
    rw [close, hfinish]
    rfl

theorem gives_members {slots : List (Slot σ)} (hfields : r.fields = slots.map Slot.field)
    {first : Bool} {draft : σ} {ms : List (Text × Value)} {ls : List Lexeme}
    (h : Lexed (.members first ms) ls) (here behind : Text) (rest : List Lexeme) :
    Reader.Gives (r.members first draft)
      (r.finished? .object (ms.foldlM (Slot.assign slots) draft))
      (ls ++ ⟨.closing .object, none, here, behind⟩ :: rest) rest := by
  induction ms generalizing first draft ls with
  | nil =>
    cases h
    exact gives_members_closing first draft rfl rest
  | cons m ms ih =>
    cases h with
    | @member _ name v _ comma ls more key behindKey colon behindColon hcomma hv hmore =>
      have hmember := Slot.gives_member hfields draft name hv key behindKey colon behindColon
        (more ++ ⟨.closing .object, none, here, behind⟩ :: rest)
      obtain ⟨_, hturn⟩ :=
        Turn.exists_inObject hcomma (l := ⟨.text (.ok name), none, key, behindKey⟩) rfl _
      rw [List.foldlM_cons, List.append_assoc, List.cons_append, List.cons_append,
        List.append_assoc, finished?, Option.bind_eq_bind, Option.bind_assoc]
      exact (hmember.andThen fun next => ih hmore).widen (members_further hturn)

theorem elements_further {fields : List (Field σ)} {field : Field σ} {first : Bool} {draft : σ}
    {input front : List Lexeme} {h : front.length ≤ input.length}
    (hturn : Turn.inList first input = .ok (.further front h)) :
    r.elements (field :: fields) first draft input =
      ((field.read draft).andThen (fun next => r.elements fields false next) front).map
        (Read.widen h) := by
  rw [elements, hturn, Reader.andThen]
  dsimp only
  cases field.read draft front with
  | error fault => rfl
  | ok e =>
    dsimp only
    cases r.elements fields false e.value e.rest <;> rfl

theorem gives_elements_closing (fields : List (Field σ)) (first : Bool) (draft : σ) {l : Lexeme}
    (hl : l.token = .closing .list) (rest : List Lexeme) :
    (r.elements fields first draft).Gives (r.finish .list draft).toOption (l :: rest) rest := by
  have helements : r.elements fields first draft (l :: rest) =
      r.close .list draft (Closing.first l rest) := by
    cases fields with
    | nil => rw [elements, Closing.ofList_closing hl]
    | cons field fields => rw [elements, Turn.inList_closing first hl]
  cases hfinish : r.finish .list draft with
  | ok a => exact ⟨Nat.lt_succ_self _, by rw [helements, close, hfinish]; rfl⟩
  | error reason => exact ⟨.behind reason l.behind, by rw [helements, close, hfinish]; rfl⟩

theorem elements_of_fault {first : Bool} {draft : σ} {input : List Lexeme} {fault : Fault}
    (h : Closing.ofList input = .error fault) :
    r.elements [] first draft input = .error fault := by
  rw [elements, h]

theorem gives_elements {fields : List (Field σ)} {slots : List (Slot σ)}
    (hfields : fields = slots.map Slot.field) {first : Bool} {draft : σ} {vs : List Value}
    {ls : List Lexeme} (h : Lexed (.elements first vs) ls) (here behind : Text)
    (rest : List Lexeme) :
    (r.elements fields first draft).Gives (r.finished? .list (Slot.fill slots vs draft))
      (ls ++ ⟨.closing .list, none, here, behind⟩ :: rest) rest := by
  subst hfields
  induction vs generalizing slots first draft ls with
  | nil =>
    cases h
    rw [Slot.fill]
    exact gives_elements_closing _ first draft rfl rest
  | cons v vs ih =>
    cases h with
    | @element _ _ _ _ _ more hcomma hv hmore =>
      have hvalue := fun (slot : Slot σ) => slot.decides v _ hv
      obtain ⟨l, tail, rfl, hl⟩ := hv.exists_cons
      rw [List.append_assoc, List.append_assoc]
      cases slots with
      | nil =>
        obtain ⟨fault, hfault⟩ := Closing.ofList_fails hcomma hl _
        exact ⟨fault, elements_of_fault hfault⟩
      | cons slot slots =>
        obtain ⟨_, hturn⟩ := Turn.exists_inList hcomma hl _
        have helement := (hvalue slot (more ++ ⟨.closing .list, none, here, behind⟩ :: rest)).map
          fun a => slot.set a draft
        have hbehind : ∀ next, (r.elements (slots.map Slot.field) false next).Gives
            (r.finished? .list (Slot.fill slots vs next)) _ rest := fun next => ih hmore
        have hboth := helement.andThen hbehind
        rw [Option.bind_map] at hboth
        rw [Slot.fill, finished?, Option.bind_assoc]
        exact hboth.widen (elements_further hturn)

theorem read_list {l : Lexeme} (hl : l.token = .opening .list) (rest : List Lexeme) :
    r.read (l :: rest) =
      (r.elements r.fields true r.blank rest).map (Read.widen (Nat.le_succ _)) := by
  rw [read, hl]
  dsimp only
  cases r.elements r.fields true r.blank rest <;> rfl

theorem decides_read {slots : List (Slot σ)} (hfields : r.fields = slots.map Slot.field) :
    r.read.Decides (r.decode? slots) := by
  intro v ls h rest
  cases h with
  | single hv => cases hv <;> exact ⟨_, rfl⟩
  | object h =>
    rw [List.cons_append, List.append_assoc]
    exact (gives_members hfields h _ _ rest).widen (read_object rfl _)
  | list h =>
    rw [List.cons_append, List.append_assoc]
    exact (gives_elements hfields h _ _ rest).widen (read_list rfl _)

end Record
end Json
end SketchPreview
