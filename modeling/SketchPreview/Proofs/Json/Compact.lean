import SketchPreview.Json.Record
import SketchPreview.Proofs.Json.Lexing
import SketchPreview.Proofs.Text.Pieces

/-!
Readers read back what is written compactly.

`Reader.Takes` says what a reader does to lexemes: it takes a value and leaves the others.
`Reader.Reads` says of a text that a reader takes it as a value, whatever follows that does not go
on with it; so values can be put next to each other, in lists (`reads_list`) and in records
(`reads_record`), and `document_of_reads` is what a whole text then is.  `Record.Fills` lists the
members of an object with the drafts that they lead through.
-/

namespace SketchPreview
namespace Json

/-! ## Lexemes of compact text -/

namespace Lexeme

theorem ofText_text (t rest : Text) : ofText (Compact.text t ++ rest) =
    ⟨.text (.ok t), none, Compact.text t ++ rest, rest⟩ :: ofText rest :=
  ofText_literal (Quoted.spellsText_write t) rest

theorem ofText_boolean (b : Bool) (rest : Text) : ofText (Compact.boolean b ++ rest) =
    ⟨.boolean b, none, Compact.boolean b ++ rest, rest⟩ :: ofText rest := by
  cases b
  · exact ofText_cons rfl rfl
  · exact ofText_cons rfl rfl

theorem ofText_natural {n : Nat} (hn : n < UInt64.size) {rest : Text}
    (hrest : Numeral.stops rest = true) : ofText (Compact.natural n ++ rest) =
    ⟨.number (.ok (.natural n)), none, Compact.natural n ++ rest, rest⟩ :: ofText rest := by
  obtain ⟨number, hlexemes, hnatural⟩ := ofText_number (Numeral.decimal_mem_numerals n) hrest
  have hnumber : number = .ok (.natural n) := (hnatural n).mpr
    ⟨fun c hc => Numeral.isDigit_of_mem_decimal hc, Nat.ofDigitChars_ten_toDigits, hn⟩
  rw [← hnumber]
  exact hlexemes

end Lexeme

/-! ## What a reader takes -/

/-- A token that begins a value other than `null`. -/
def Token.isGiven : Token → Bool
  | .opening _ | .boolean _ | .number _ | .text _ => true
  | .closing _ | .comma | .colon | .null | .misspelt _ | .stray => false

theorem Token.ne_closing_of_isGiven {token : Token} {b : Bracket} (h : token.isGiven = true) :
    token ≠ .closing b := by
  rintro rfl
  exact Bool.false_ne_true h

/-- A reader takes a value off the front of `input` and leaves `rest`. -/
def Reader.Takes (read : Reader α) (a : α) (input rest : List Lexeme) : Prop :=
  ∃ h, read input = .ok ⟨a, rest, h⟩

/-- A text is read as a value, whatever follows it that does not go on with it. -/
def Reader.Reads (read : Reader α) (a : α) (t : Text) : Prop :=
  ∀ rest, Numeral.stops rest = true → ∃ l more, Lexeme.ofText (t ++ rest) = l :: more ∧
    l.token.isGiven = true ∧ read.Takes a (l :: more) (Lexeme.ofText rest)

namespace Reader

theorem Takes.map {read : Reader α} {a : α} {input rest : List Lexeme}
    (h : read.Takes a input rest) (f : α → β) : (read.map f).Takes (f a) input rest := by
  obtain ⟨hshorter, hread⟩ := h
  exact ⟨hshorter, by rw [Reader.map, hread]⟩

theorem Takes.andThen {read : Reader α} {next : α → Reader β} {a : α} {b : β}
    {input middle rest : List Lexeme} (h : read.Takes a input middle)
    (hnext : (next a).Takes b middle rest) : (read.andThen next).Takes b input rest := by
  obtain ⟨hshorter, hread⟩ := h
  obtain ⟨hshorter', hread'⟩ := hnext
  refine ⟨Nat.lt_trans hshorter' hshorter, ?_⟩
  rw [Reader.andThen, hread]
  dsimp only
  rw [hread']
  rfl

/-- What is taken in front of less is taken where a reader does the same with more in front. -/
theorem Takes.widen {read read' : Reader α} {a : α} {front input rest : List Lexeme}
    (h : read.Takes a front rest) {hle : front.length ≤ input.length}
    (heq : read' input = (read front).map (Read.widen hle)) : read'.Takes a input rest := by
  obtain ⟨hshorter, hread⟩ := h
  rw [hread] at heq
  exact ⟨Nat.lt_of_lt_of_le hshorter hle, heq⟩

theorem takes_single {expected : Shape} {accept : Token → Option (Except Reason α)} {a : α}
    {l : Lexeme} (h : accept l.token = some (.ok a)) (rest : List Lexeme) :
    (single expected accept).Takes a (l :: rest) rest := by
  refine ⟨Nat.lt_succ_self _, ?_⟩
  rw [single, h]
  rfl

theorem takes_textAs {expected : Shape} {l : Lexeme} {t : Text} (hl : l.token = .text (.ok t))
    (rest : List Lexeme) : (textAs expected).Takes t (l :: rest) rest :=
  takes_single (by rw [hl]) rest

theorem takes_optional {read : Reader α} {a : α} {l : Lexeme} {more rest : List Lexeme}
    (hl : l.token.isGiven = true) (h : read.Takes a (l :: more) rest) :
    (optional read).Takes (some a) (l :: more) rest := by
  obtain ⟨hshorter, hread⟩ := h.map some
  refine ⟨hshorter, ?_⟩
  rw [optional]
  split
  · rename_i hnull
    simp [hnull, Token.isGiven] at hl
  · exact hread

/-! ## Values -/

theorem Reads.map {read : Reader α} {a : α} {t : Text} (h : read.Reads a t) (f : α → β) :
    (read.map f).Reads (f a) t := by
  intro rest hrest
  obtain ⟨l, more, hlexemes, hl, htakes⟩ := h rest hrest
  exact ⟨l, more, hlexemes, hl, htakes.map f⟩

theorem Reads.optional {read : Reader α} {a : α} {t : Text} (h : read.Reads a t) :
    (optional read).Reads (some a) t := by
  intro rest hrest
  obtain ⟨l, more, hlexemes, hl, htakes⟩ := h rest hrest
  exact ⟨l, more, hlexemes, hl, takes_optional hl htakes⟩

theorem reads_textAs (expected : Shape) (t : Text) :
    (textAs expected).Reads t (Compact.text t) := by
  intro rest _
  exact ⟨_, _, Lexeme.ofText_text t rest, rfl, takes_textAs rfl _⟩

theorem reads_boolean (b : Bool) : boolean.Reads b (Compact.boolean b) := by
  intro rest _
  exact ⟨_, _, Lexeme.ofText_boolean b rest, rfl, takes_single rfl _⟩

theorem reads_natural {expected : Shape} {bound : Nat} (n : { n : Nat // n < bound })
    (h : bound ≤ UInt64.size) : (natural expected bound).Reads n (Compact.natural n.1) := by
  intro rest hrest
  refine ⟨_, _, Lexeme.ofText_natural (Nat.lt_of_lt_of_le n.2 h) hrest, rfl, takes_single ?_ _⟩
  dsimp only
  rw [dif_pos n.2]

theorem reads_word32 (n : UInt32) : word32.Reads n (Compact.natural n.toNat) := by
  have hn : word32.Reads (UInt32.ofNatLT n.toNat n.toNat_lt) (Compact.natural n.toNat) :=
    (reads_natural ⟨n.toNat, n.toNat_lt⟩ (by decide)).map fun n => UInt32.ofNatLT n.1 n.2
  rwa [UInt32.ofNatLT_toNat] at hn

theorem reads_word64 (n : UInt64) : word64.Reads n (Compact.natural n.toNat) := by
  have hn : word64.Reads (UInt64.ofNatLT n.toNat n.toNat_lt) (Compact.natural n.toNat) :=
    (reads_natural ⟨n.toNat, n.toNat_lt⟩ (by decide)).map fun n => UInt64.ofNatLT n.1 n.2
  rwa [UInt64.ofNatLT_toNat] at hn

end Reader

/-! ## Lists -/

theorem Turn.inList_closing (first : Bool) {l : Lexeme} (hl : l.token = .closing .list)
    (rest : List Lexeme) : Turn.inList first (l :: rest) = .ok (.closed (.first l rest)) := by
  rw [Turn.inList, hl]

theorem Turn.inList_first {l : Lexeme} (hl : l.token ≠ .closing .list) (rest : List Lexeme) :
    Turn.inList true (l :: rest) = .ok (.here (l :: rest)) := by
  rw [Turn.inList]
  split
  · rename_i hclosing
    exact absurd hclosing hl
  · rfl

theorem Turn.inList_comma {l next : Lexeme} (hl : l.token = .comma)
    (hnext : next.token ≠ .closing .list) (more : List Lexeme) :
    Turn.inList false (l :: next :: more) = .ok (.behind l (next :: more)) := by
  rw [Turn.inList, hl]
  dsimp only
  rw [if_neg Bool.false_ne_true]
  split
  · rename_i hclosing
    exact absurd hclosing hnext
  · rfl

namespace Reader

section Elements

variable {read : Reader α} {first : Bool}

theorem takes_elements_closing {l : Lexeme} (hl : l.token = .closing .list) (rest : List Lexeme) :
    Takes (elements read first) [] (l :: rest) rest := by
  refine ⟨Nat.lt_succ_self _, ?_⟩
  rw [elements, Turn.inList_closing first hl]
  rfl

/-- Where a list goes on, an element is read, and then the others. -/
theorem elements_further {input next : List Lexeme} {h : next.length ≤ input.length}
    (hturn : Turn.inList first input = .ok (.further next h)) : elements read first input =
      (read.andThen (fun a => Reader.map (a :: ·) (elements read false)) next).map
        (Read.widen h) := by
  rw [elements, hturn, andThen]
  dsimp only
  cases read next with
  | error fault => rfl
  | ok r =>
    dsimp only [Reader.map]
    cases elements read false r.rest <;> rfl

theorem takes_elements_further {a : α} {as : List α} {input next middle rest : List Lexeme}
    {h : next.length ≤ input.length} (hturn : Turn.inList first input = .ok (.further next h))
    (hread : read.Takes a next middle) (hmore : Takes (elements read false) as middle rest) :
    Takes (elements read first) (a :: as) input rest :=
  (hread.andThen (hmore.map (a :: ·))).widen (elements_further hturn)

theorem takes_elements_behind {as : List α} {write : α → Text}
    (h : ∀ a ∈ as, read.Reads a (write a)) (rest : Text) :
    Takes (elements read false) as
      (Lexeme.ofText ((as.map write).flatMap (',' :: ·) ++ ']' :: rest)) (Lexeme.ofText rest) := by
  -- What follows an element is a comma or the bracket, so a number that it ends in ends there.
  induction as with
  | nil =>
    rw [List.map_nil, List.flatMap_nil, List.nil_append, Lexeme.ofText_mark rfl rfl]
    exact takes_elements_closing rfl _
  | cons a as ih =>
    have hbehind := ih fun b hb => h b (List.mem_cons_of_mem a hb)
    have hstops : Numeral.stops ((as.map write).flatMap (',' :: ·) ++ ']' :: rest) = true := by
      cases as <;> rfl
    obtain ⟨l, more, hlexemes, hl, htakes⟩ := h a List.mem_cons_self _ hstops
    rw [List.map_cons, List.flatMap_cons, List.cons_append, List.cons_append, List.append_assoc,
      Lexeme.ofText_mark rfl rfl, hlexemes]
    exact takes_elements_further (Turn.inList_comma rfl (Token.ne_closing_of_isGiven hl) more)
      htakes hbehind

theorem list_opening {l : Lexeme} (hl : l.token = .opening .list) (rest : List Lexeme) :
    list read (l :: rest) = (elements read true rest).map (Read.widen (Nat.le_succ _)) := by
  rw [list, hl]
  dsimp only
  cases elements read true rest <;> rfl

theorem reads_list {as : List α} {write : α → Text} (h : ∀ a ∈ as, read.Reads a (write a)) :
    (list read).Reads as (Compact.list (as.map write)) := by
  intro rest _
  have hopen : Compact.list (as.map write) ++ rest =
      '[' :: ([','].intercalate (as.map write) ++ ']' :: rest) := by
    rw [Compact.list, List.append_assoc, List.cons_append, List.singleton_append]
  have htakes : Takes (elements read true) as
      (Lexeme.ofText ([','].intercalate (as.map write) ++ ']' :: rest)) (Lexeme.ofText rest) := by
    cases as with
    | nil =>
      rw [List.map_nil, List.intercalate_nil, List.nil_append, Lexeme.ofText_mark rfl rfl]
      exact takes_elements_closing rfl _
    | cons a as =>
      have hbehind := takes_elements_behind (fun b hb => h b (List.mem_cons_of_mem a hb)) rest
      have hstops : Numeral.stops ((as.map write).flatMap (',' :: ·) ++ ']' :: rest) = true := by
        cases as <;> rfl
      obtain ⟨l, more, hlexemes, hl, htakes⟩ := h a List.mem_cons_self _ hstops
      rw [List.map_cons, Text.intercalate_cons, List.append_assoc, hlexemes]
      exact takes_elements_further (Turn.inList_first (Token.ne_closing_of_isGiven hl) more) htakes
        hbehind
  rw [hopen, Lexeme.ofText_mark rfl rfl]
  exact ⟨_, _, rfl, rfl, htakes.widen (list_opening rfl _)⟩

end Elements

end Reader

/-! ## Records -/

theorem Turn.inObject_closing (first : Bool) {l : Lexeme} (hl : l.token = .closing .object)
    (rest : List Lexeme) : Turn.inObject first (l :: rest) = .ok (.closed (.first l rest)) := by
  rw [Turn.inObject, hl]

theorem Turn.inObject_first {l : Lexeme} {key : Except Fault Text} (hl : l.token = .text key)
    (rest : List Lexeme) : Turn.inObject true (l :: rest) = .ok (.here (l :: rest)) := by
  rw [Turn.inObject, hl]
  rfl

theorem Turn.inObject_comma {l next : Lexeme} {key : Except Fault Text} (hl : l.token = .comma)
    (hnext : next.token = .text key) (more : List Lexeme) :
    Turn.inObject false (l :: next :: more) = .ok (.behind l (next :: more)) := by
  rw [Turn.inObject, hl]
  dsimp only
  rw [if_neg Bool.false_ne_true, hnext]

namespace Record

variable {σ α : Type}

/-- Members of an object and the drafts that they lead to, one after the other. -/
inductive Fills (fields : List (Field σ)) : σ → List Text → σ → Prop
  | nil (draft : σ) : Fills fields draft [] draft
  | cons {draft next last : σ} {name : String} {value : Text} {members : List Text}
    {field : Field σ} (hfield : fields.find? (fun field => field.name == name.toList) = some field)
    (hset : field.isSet draft = false) (hvalue : (field.read draft).Reads next value)
    (hmore : Fills fields next members last) :
    Fills fields draft (Compact.member name value :: members) last

/-- A member that is read by the field of its name, which no member before it has set. -/
theorem Fills.field {β : Type} {fields : List (Field σ)} {draft last : σ} {name : String}
    {read : Reader β} {get : σ → Option β} {set : β → σ → σ} {b : β} {value : Text}
    {members : List Text}
    (hfield : fields.find? (fun field => field.name == name.toList) =
      some (Field.of name read get set))
    (hunset : get draft = none) (hvalue : read.Reads b value)
    (hmore : Fills fields (set b draft) members last) :
    Fills fields draft (Compact.member name value :: members) last :=
  .cons hfield (Option.isSome_eq_false_iff.mpr (Option.isNone_iff_eq_none.mpr hunset))
    (hvalue.map fun b => set b draft) hmore

theorem takes_colon (here behind : Text) (rest : List Lexeme) :
    Reader.Takes colon () (⟨.colon, none, here, behind⟩ :: rest) rest :=
  ⟨Nat.lt_succ_self _, rfl⟩

theorem takes_member {fields : List (Field σ)} {draft next : σ} {name : String} {value : Text}
    {field : Field σ} (hfield : fields.find? (fun field => field.name == name.toList) = some field)
    (hset : field.isSet draft = false) (hvalue : (field.read draft).Reads next value) {rest : Text}
    (hrest : Numeral.stops rest = true) : ∃ l more key,
      Lexeme.ofText (Compact.member name value ++ rest) = l :: more ∧ l.token = .text key ∧
        (member fields draft).Takes next (l :: more) (Lexeme.ofText rest) := by
  obtain ⟨v, behind, hlexemes, -, htakes⟩ := hvalue rest hrest
  have hmember : Compact.member name value ++ rest =
      Compact.text name.toList ++ ':' :: (value ++ rest) := by
    rw [Compact.member, Compact.text, List.append_assoc, List.cons_append]
  rw [hmember, Lexeme.ofText_text, Lexeme.ofText_mark rfl rfl, hlexemes]
  refine ⟨_, _, _, rfl, rfl, ?_⟩
  rw [member]
  refine Reader.Takes.andThen (Reader.takes_textAs rfl _) ?_
  have hbehind : Reader.Takes (colon.andThen fun _ => field.read draft) next _ _ :=
    (takes_colon (':' :: (value ++ rest)) (value ++ rest) _).andThen htakes
  obtain ⟨hshorter, hread⟩ := hbehind
  refine ⟨hshorter, ?_⟩
  rw [hfield]
  dsimp only
  rw [hset, if_neg Bool.false_ne_true]
  exact hread

variable {r : Record σ α}

theorem takes_members_closing {first : Bool} {draft : σ} {a : α}
    (h : r.finish .object draft = .ok a) {l : Lexeme} (hl : l.token = .closing .object)
    (rest : List Lexeme) : Reader.Takes (r.members first draft) a (l :: rest) rest := by
  refine ⟨Nat.lt_succ_self _, ?_⟩
  rw [members, Turn.inObject_closing first hl]
  dsimp only
  rw [close, h]
  rfl

/-- Where an object goes on, a member is read into the draft, and then the others. -/
theorem members_further {first : Bool} {draft : σ} {input front : List Lexeme}
    {h : front.length ≤ input.length}
    (hturn : Turn.inObject first input = .ok (.further front h)) : r.members first draft input =
      ((member r.fields draft).andThen (fun next => r.members false next) front).map
        (Read.widen h) := by
  rw [members, hturn, Reader.andThen]
  dsimp only
  cases member r.fields draft front with
  | error fault => rfl
  | ok m =>
    dsimp only
    cases r.members false m.value m.rest <;> rfl

theorem takes_members_further {first : Bool} {draft next : σ} {a : α}
    {input front middle rest : List Lexeme} {h : front.length ≤ input.length}
    (hturn : Turn.inObject first input = .ok (.further front h))
    (hmember : (member r.fields draft).Takes next front middle)
    (hmore : Reader.Takes (r.members false next) a middle rest) :
    Reader.Takes (r.members first draft) a input rest :=
  (hmember.andThen hmore).widen (members_further hturn)

theorem takes_members_behind {draft last : σ} {texts : List Text} {a : α}
    (hfills : Fills r.fields draft texts last) (hfinish : r.finish .object last = .ok a)
    (rest : Text) : Reader.Takes (r.members false draft) a
      (Lexeme.ofText (texts.flatMap (',' :: ·) ++ '}' :: rest)) (Lexeme.ofText rest) := by
  induction hfills with
  | nil draft =>
    rw [List.flatMap_nil, List.nil_append, Lexeme.ofText_mark rfl rfl]
    exact takes_members_closing hfinish rfl _
  | @cons draft next last name value texts field hfield hset hvalue hmore ih =>
    have hstops : Numeral.stops (texts.flatMap (',' :: ·) ++ '}' :: rest) = true := by
      cases texts <;> rfl
    obtain ⟨l, more, key, hlexemes, hl, htakes⟩ := takes_member hfield hset hvalue hstops
    rw [List.flatMap_cons, List.cons_append, List.cons_append, List.append_assoc,
      Lexeme.ofText_mark rfl rfl, hlexemes]
    exact takes_members_further (Turn.inObject_comma rfl hl more) htakes (ih hfinish)

theorem read_object {l : Lexeme} (hl : l.token = .opening .object) (rest : List Lexeme) :
    r.read (l :: rest) = (r.members true r.blank rest).map (Read.widen (Nat.le_succ _)) := by
  rw [read, hl]
  dsimp only
  cases r.members true r.blank rest <;> rfl

theorem reads_record {last : σ} {texts : List Text} {a : α}
    (hfills : Fills r.fields r.blank texts last) (hfinish : r.finish .object last = .ok a) :
    Reader.Reads r.read a (Compact.object texts) := by
  intro rest _
  have hopen : Compact.object texts ++ rest =
      '{' :: ([','].intercalate texts ++ '}' :: rest) := by
    rw [Compact.object, List.append_assoc, List.cons_append, List.singleton_append]
  have htakes : Reader.Takes (r.members true r.blank) a
      (Lexeme.ofText ([','].intercalate texts ++ '}' :: rest)) (Lexeme.ofText rest) := by
    cases hfills with
    | nil =>
      rw [List.intercalate_nil, List.nil_append, Lexeme.ofText_mark rfl rfl]
      exact takes_members_closing hfinish rfl _
    | @cons draft next last name value texts field hfield hset hvalue hmore =>
      have hstops : Numeral.stops (texts.flatMap (',' :: ·) ++ '}' :: rest) = true := by
        cases texts <;> rfl
      obtain ⟨l, more, key, hlexemes, hl, htakes⟩ := takes_member hfield hset hvalue hstops
      rw [Text.intercalate_cons, List.append_assoc, hlexemes]
      exact takes_members_further (Turn.inObject_first hl more) htakes
        (takes_members_behind hmore hfinish rest)
  rw [hopen, Lexeme.ofText_mark rfl rfl]
  exact ⟨_, _, rfl, rfl, htakes.widen (read_object rfl _)⟩

end Record

theorem Reader.document_of_reads {read : Reader α} {a : α} {t : Text} (h : read.Reads a t) :
    read.document t = .ok a := by
  obtain ⟨l, more, hlexemes, -, htakes⟩ := h [] rfl
  rw [List.append_nil] at hlexemes
  rw [← hlexemes, Lexeme.ofText_nil] at htakes
  obtain ⟨hshorter, hread⟩ := htakes
  rw [document, hread]
  rfl

end Json
end SketchPreview
