import SketchPreview.Proofs.Config.RoundTrip
import SketchPreview.Proofs.Json.Members

/-!
A configuration is read setting by setting.

`Config.ofMembers?` says of the members of an object what each setting is: what the member of its
name holds, or the default where there is none, and nothing at all where a member holds something
else than its setting is.  `Config.ofJson_document` is that reading a text of the grammar comes to
that and to the question whether the configuration can be used; so neither the order of the members
nor what else is among them matters.

A command may also be written as a list, of a program and of arguments (`Command.ofElements?`).
-/

namespace SketchPreview

open Json

namespace Command

def slots : List (Slot Draft) := [
  ⟨"program", .text, Value.text?, (·.program), fun a d => { d with program := some a },
    Reader.decides_textAs .text, fun _ _ => rfl⟩,
  ⟨"args", .list .text, Value.list? Value.text?, (·.arguments),
    fun a d => { d with arguments := some a },
    Reader.decides_list (Reader.decides_textAs .text), fun _ _ => rfl⟩]

theorem fields_eq : record.fields = slots.map Slot.field := rfl

theorem slots_apart : slots.Pairwise Slot.Apart := by
  refine .cons ?_ (.cons ?_ .nil)
  · simp only [List.mem_singleton, forall_eq]
    exact ⟨by decide, fun _ _ => rfl, fun _ _ => rfl⟩
  · simp

/-- The command of an object. -/
def ofMembers? (ms : List (Text × Value)) : Option Command := do
  let program ← given? ms "program".toList Value.text? ({} : Command).program
  let arguments ← given? ms "args".toList (Value.list? Value.text?) ({} : Command).arguments
  return { program, arguments }

/-- The command of a list. -/
def ofElements? : List Value → Option Command
  | [] => some {}
  | [program] => do
    let program ← program.text?
    return { program }
  | [program, arguments] => do
    let program ← program.text?
    let arguments ← arguments.list? Value.text?
    return { program, arguments }
  | _ => none

def ofValue? : Value → Option Command
  | .object ms => ofMembers? ms
  | .list vs => ofElements? vs
  | _ => none

theorem finished?_object {ms : List (Text × Value)} (hnames : (ms.map Prod.fst).Nodup) :
    record.finished? .object (ms.foldlM (Slot.assign slots) record.blank) = ofMembers? ms := by
  refine Record.finished?_members slots_apart (by simp [slots, record]) hnames ?_ ?_
  · intro c hc
    simp only [ofMembers?, Option.bind_eq_bind, Option.bind_eq_some_iff] at hc
    obtain ⟨_, hprogram, _, harguments, -⟩ := hc
    simp only [slots, List.forall_mem_cons]
    exact ⟨Slot.gathered?_ne_none rfl hprogram, Slot.gathered?_ne_none rfl harguments, by simp⟩
  · intro last hlast
    simp only [slots, List.forall_mem_cons] at hlast
    obtain ⟨hprogram, harguments, -⟩ := hlast
    rw [ofMembers?, Slot.given?_of_gathered? rfl hprogram, Slot.given?_of_gathered? rfl harguments]
    rfl

theorem ofMembers?_of_same {ms ms' : List (Text × Value)} (hnames : (ms.map Prod.fst).Nodup)
    (hnames' : (ms'.map Prod.fst).Nodup) (h : SameMembers ["program", "args"] ms ms') :
    ofMembers? ms = ofMembers? ms' := by
  rw [ofMembers?, ofMembers?, given?_of_same hnames hnames' (h "program" (by simp)),
    given?_of_same hnames hnames' (h "args" (by simp))]

theorem finished?_list (vs : List Value) :
    record.finished? .list (Slot.fill slots vs record.blank) = ofElements? vs := by
  match vs with
  | [] => rfl
  | [program] =>
    simp only [slots, Slot.fill, ofElements?]
    cases program.text? <;> rfl
  | [program, arguments] =>
    simp only [slots, Slot.fill, ofElements?]
    cases program.text? <;> cases arguments.list? Value.text? <;> rfl
  | program :: arguments :: _ :: _ =>
    simp only [slots, Slot.fill, ofElements?]
    cases program.text? <;> cases arguments.list? Value.text? <;> rfl

/-- A command is read as what its value says, if no name comes twice in it. -/
theorem decode?_eq {v : Value} (hnames : ∀ ms, v = .object ms → (ms.map Prod.fst).Nodup) :
    record.decode? slots v = ofValue? v := by
  cases v with
  | object ms => exact finished?_object (hnames ms rfl)
  | list vs => exact finished?_list vs
  | _ => rfl

end Command

namespace Config

def slots : List (Slot Draft) := [
  ⟨"liveUpdate", .boolean, Value.boolean?, (·.liveUpdate),
    fun a d => { d with liveUpdate := some a }, Reader.decides_boolean, fun _ _ => rfl⟩,
  ⟨"openPreviewInSplitPane", .boolean, Value.boolean?, (·.openInSplitPane),
    fun a d => { d with openInSplitPane := some a }, Reader.decides_boolean, fun _ _ => rfl⟩,
  ⟨"grammars", .list .text, Value.list? Value.text?, (·.grammars),
    fun a d => { d with grammars := some a },
    Reader.decides_list (Reader.decides_textAs .text), fun _ _ => rfl⟩,
  ⟨"width", .word32, Value.word32?, (·.width), fun a d => { d with width := some a },
    Reader.decides_word32, fun _ _ => rfl⟩,
  ⟨"height", .word32, Value.word32?, (·.height), fun a d => { d with height := some a },
    Reader.decides_word32, fun _ _ => rfl⟩,
  ⟨"pollIntervalMs", .word64, Value.word64?, (·.pollInterval),
    fun a d => { d with pollInterval := some a }, Reader.decides_word64, fun _ _ => rfl⟩,
  ⟨"command", Command.record.read, Command.record.decode? Command.slots, (·.command),
    fun a d => { d with command := some a }, Record.decides_read Command.fields_eq,
    fun _ _ => rfl⟩]

theorem fields_eq : record.fields = slots.map Slot.field := rfl

theorem slots_apart : slots.Pairwise Slot.Apart := by
  simp only [slots, List.pairwise_cons, List.forall_mem_cons, List.not_mem_nil, false_imp_iff,
    implies_true, and_true, List.Pairwise.nil]
  refine ⟨⟨?_, ?_, ?_, ?_, ?_, ?_⟩, ⟨?_, ?_, ?_, ?_, ?_⟩, ⟨?_, ?_, ?_, ?_⟩, ⟨?_, ?_, ?_⟩,
    ⟨?_, ?_⟩, ?_⟩ <;> exact ⟨by decide, fun _ _ => rfl, fun _ _ => rfl⟩

/-- The configuration of an object. -/
def ofMembers? (ms : List (Text × Value)) : Option Config := do
  let liveUpdate ← given? ms "liveUpdate".toList Value.boolean? ({} : Config).liveUpdate
  let openInSplitPane ←
    given? ms "openPreviewInSplitPane".toList Value.boolean? ({} : Config).openInSplitPane
  let grammars ← given? ms "grammars".toList (Value.list? Value.text?) ({} : Config).grammars
  let width ← given? ms "width".toList Value.word32? ({} : Config).width
  let height ← given? ms "height".toList Value.word32? ({} : Config).height
  let pollInterval ← given? ms "pollIntervalMs".toList Value.word64? ({} : Config).pollInterval
  let command ← given? ms "command".toList Command.ofValue? ({} : Config).command
  return { liveUpdate, openInSplitPane, grammars, width, height, pollInterval, command }

/-- No name comes twice among the members, nor in the command if that is an object. -/
def DistinctNames (ms : List (Text × Value)) : Prop :=
  (ms.map Prod.fst).Nodup ∧
    ∀ cs, ("command".toList, Value.object cs) ∈ ms → (cs.map Prod.fst).Nodup

theorem finished?_object {ms : List (Text × Value)} (hnames : DistinctNames ms) :
    record.finished? .object (ms.foldlM (Slot.assign slots) record.blank) = ofMembers? ms := by
  have hcommand : given? ms "command".toList Command.ofValue? ({} : Config).command =
      given? ms "command".toList (Command.record.decode? Command.slots) ({} : Config).command := by
    refine given?_congr hnames.1 (fun v hv => ?_) _
    refine (Command.decode?_eq fun cs hcs => ?_).symm
    exact hnames.2 cs (by rw [← hcs]; exact hv)
  rw [ofMembers?, hcommand]
  refine Record.finished?_members slots_apart (by simp [slots, record]) hnames.1 ?_ ?_
  · intro c hc
    simp only [Option.bind_eq_bind, Option.bind_eq_some_iff] at hc
    obtain ⟨_, h1, _, h2, _, h3, _, h4, _, h5, _, h6, _, h7, -⟩ := hc
    simp only [slots, List.forall_mem_cons]
    exact ⟨Slot.gathered?_ne_none rfl h1, Slot.gathered?_ne_none rfl h2,
      Slot.gathered?_ne_none rfl h3, Slot.gathered?_ne_none rfl h4,
      Slot.gathered?_ne_none rfl h5, Slot.gathered?_ne_none rfl h6,
      Slot.gathered?_ne_none rfl h7, by simp⟩
  · intro last hlast
    simp only [slots, List.forall_mem_cons] at hlast
    obtain ⟨h1, h2, h3, h4, h5, h6, h7, -⟩ := hlast
    rw [Slot.given?_of_gathered? rfl h1, Slot.given?_of_gathered? rfl h2,
      Slot.given?_of_gathered? rfl h3, Slot.given?_of_gathered? rfl h4,
      Slot.given?_of_gathered? rfl h5, Slot.given?_of_gathered? rfl h6,
      Slot.given?_of_gathered? rfl h7]
    rfl

/-- A text is read as what its members say, if that can be used. -/
theorem ofJson_document {ms : List (Text × Value)} {t : Text} (ht : Document (.object ms) t)
    (hnames : DistinctNames ms) (c : Config) : ofJson t = .ok c ↔
      ofMembers? ms = some c ∧ 1 ≤ c.width ∧ 1 ≤ c.height ∧ Text.trim c.command.program ≠ [] := by
  have hread : (record.read.document t).toOption = ofMembers? ms :=
    (Reader.gives_document (Record.decides_read fields_eq) ht).trans (finished?_object hnames)
  have husable : c.defect? = none ↔
      1 ≤ c.width ∧ 1 ≤ c.height ∧ Text.trim c.command.program ≠ [] := by
    rw [defect?_eq_none_iff, ne_eq, Text.trim_eq_nil_iff]
    simp
  rw [← husable, ← hread, ofJson]
  cases record.read.document t with
  | error fault => simp [Except.toOption]
  | ok d =>
    dsimp only [Except.toOption]
    cases hdefect : d.defect? with
    | some defect =>
      refine iff_of_false (by simp) ?_
      rintro ⟨heq, hnone⟩
      rw [← Option.some.inj heq, hdefect] at hnone
      cases hnone
    | none =>
      constructor
      · intro h
        obtain rfl := Except.ok.inj h
        exact ⟨rfl, hdefect⟩
      · intro h
        rw [Option.some.inj h.1]

/-- The same settings, in whatever order and among whatever others, in the configuration as in its
command. -/
def SameSettings (ms ms' : List (Text × Value)) : Prop :=
  SameMembers ["liveUpdate", "openPreviewInSplitPane", "grammars", "width", "height",
    "pollIntervalMs"] ms ms' ∧
  (SameMembers ["command"] ms ms' ∨
    ∃ cs cs', ("command".toList, Value.object cs) ∈ ms ∧
      ("command".toList, Value.object cs') ∈ ms' ∧ SameMembers ["program", "args"] cs cs')

theorem ofMembers?_of_same {ms ms' : List (Text × Value)} (hnames : DistinctNames ms)
    (hnames' : DistinctNames ms') (h : SameSettings ms ms') : ofMembers? ms = ofMembers? ms' := by
  obtain ⟨hsettings, hcommand⟩ := h
  have hsame : ∀ name ∈ ["liveUpdate", "openPreviewInSplitPane", "grammars", "width", "height",
      "pollIntervalMs"], ∀ {α : Type} (decode : Value → Option α) (default : α),
      given? ms name.toList decode default = given? ms' name.toList decode default :=
    fun name hname _ _ => given?_of_same hnames.1 hnames'.1 (hsettings name hname)
  have hcommand : given? ms "command".toList Command.ofValue? ({} : Config).command =
      given? ms' "command".toList Command.ofValue? ({} : Config).command := by
    rcases hcommand with hsame | ⟨cs, cs', hcs, hcs', hsame⟩
    · exact given?_of_same hnames.1 hnames'.1 (hsame "command" (by simp)) _
    · rw [given?, given?, (lookup_eq_some_iff hnames.1).mpr hcs,
        (lookup_eq_some_iff hnames'.1).mpr hcs']
      exact Command.ofMembers?_of_same (hnames.2 cs hcs) (hnames'.2 cs' hcs') hsame
  rw [ofMembers?, ofMembers?, hsame "liveUpdate" (by simp),
    hsame "openPreviewInSplitPane" (by simp), hsame "grammars" (by simp), hsame "width" (by simp),
    hsame "height" (by simp), hsame "pollIntervalMs" (by simp), hcommand]

/-- A configuration is read setting by setting: each is what the member of its name holds, or the
default where there is none, and it is refused if a member holds something else than its setting is,
or if the whole cannot be used.  Other members and the order of all of them do not matter. -/
theorem ofJson_settings {ms : List (Text × Value)} {t : Text} (ht : Document (.object ms) t)
    (hnames : DistinctNames ms) :
    (∀ c, ofJson t = .ok c ↔
      ofMembers? ms = some c ∧ 1 ≤ c.width ∧ 1 ≤ c.height ∧ Text.trim c.command.program ≠ []) ∧
    ∀ ms' t', Document (.object ms') t' → DistinctNames ms' → SameSettings ms ms' →
      ∀ c, ofJson t = .ok c ↔ ofJson t' = .ok c := by
  refine ⟨ofJson_document ht hnames, ?_⟩
  intro ms' t' ht' hnames' hsame c
  rw [ofJson_document ht hnames, ofJson_document ht' hnames',
    ofMembers?_of_same hnames hnames' hsame]

/-- Spelled with white space, a list to pass over, and a height. -/
theorem document_height : Document
    (.object [("x".toList, .list [.null]), ("height".toList, .number "7".toList)])
    "\x7b\"x\" :[null],\n\"height\":7\x7d".toList := by
  have hnone : IsSpace [] := by simp [IsSpace]
  have hfront : Separates true [] := hnone
  have hblank : IsSpace [' '] := by simp [IsSpace]
  have hbreak : Separates false ",\n".toList := ⟨[], ['\n'], hnone, by simp [IsSpace], rfl⟩
  have hlist : Spells (.value (.list [.null])) "[null]".toList :=
    .list (.element hfront .null (.noElement hnone))
  have hheight : Spells (.members false [("height".toList, .number "7".toList)])
      ",\n\"height\":7".toList :=
    .member hbreak (Quoted.spellsText_write "height".toList) hnone hnone
      (.number (Numeral.decimal_mem_numerals 7)) (.noMember hnone)
  have hmembers : Spells (.members true [("x".toList, .list [.null]),
      ("height".toList, .number "7".toList)]) "\"x\" :[null],\n\"height\":7".toList :=
    .member hfront (Quoted.spellsText_write "x".toList) hblank hnone hlist hheight
  exact ⟨[], _, [], hnone, .object hmembers, hnone, rfl⟩

theorem document_height_alone : Document (.object [("height".toList, .number "7".toList)])
    "\x7b\"height\":7\x7d".toList := by
  have hnone : IsSpace [] := by simp [IsSpace]
  have hfront : Separates true [] := hnone
  have hheight : Spells (.members true [("height".toList, .number "7".toList)])
      "\"height\":7".toList :=
    .member hfront (Quoted.spellsText_write "height".toList) hnone hnone
      (.number (Numeral.decimal_mem_numerals 7)) (.noMember hnone)
  exact ⟨[], _, [], hnone, .object hheight, hnone, rfl⟩

/-- One setting, once with another member in front. -/
theorem ofJson_settings_height :
    let ms := [("x".toList, .list [.null]), ("height".toList, .number "7".toList)]
    let t := "\x7b\"x\" :[null],\n\"height\":7\x7d".toList
    let alone := [("height".toList, .number "7".toList)]
    Document (.object ms) t ∧ DistinctNames ms ∧ ofJson t = .ok { height := 7 } ∧
      Document (.object alone) "\x7b\"height\":7\x7d".toList ∧ DistinctNames alone ∧
      SameSettings ms alone ∧ ofJson "\x7b\"height\":7\x7d".toList = .ok { height := 7 } := by
  intro ms t alone
  have hnames : DistinctNames ms := ⟨by decide, by simp [ms]⟩
  have halone : DistinctNames alone := ⟨by decide, by simp [alone]⟩
  have hsame : SameSettings ms alone := by
    refine ⟨?_, Or.inl ?_⟩ <;> simp [SameMembers, ms, alone]
  have hfirst : ofJson t = .ok { height := 7 } :=
    ((ofJson_settings document_height hnames).1 { height := 7 }).mpr
      ⟨rfl, by decide, by decide, by decide⟩
  have hsecond := (ofJson_settings document_height hnames).2 alone _ document_height_alone halone
    hsame { height := 7 }
  exact ⟨document_height, hnames, hfirst, document_height_alone, halone, hsame,
    hsecond.mp hfirst⟩

theorem document_command_list :
    Document (.object [("command".toList, .list [])]) "\x7b\"command\":[]\x7d".toList := by
  have hnone : IsSpace [] := by simp [IsSpace]
  have hfront : Separates true [] := hnone
  have hcommand : Spells (.members true [("command".toList, .list [])])
      "\"command\":[]".toList :=
    .member hfront (Quoted.spellsText_write "command".toList) hnone hnone
      (.list (.noElement hnone)) (.noMember hnone)
  exact ⟨[], _, [], hnone, .object hcommand, hnone, rfl⟩

/-- A command that is read need not be an object: an empty list is one with the defaults. -/
theorem ofJson_command_list :
    ofJson "\x7b\"command\":[]\x7d".toList = .ok {} ∧
      ¬ ∀ ms t c, Document (.object ms) t → DistinctNames ms → ofJson t = .ok c →
        ∀ v, ("command".toList, v) ∈ ms → ∃ cs, v = .object cs := by
  have hnames : DistinctNames [("command".toList, .list [])] := ⟨by decide, by simp⟩
  have hread : ofJson "\x7b\"command\":[]\x7d".toList = .ok {} :=
    (ofJson_document document_command_list hnames {}).mpr ⟨rfl, by decide, by decide, by decide⟩
  refine ⟨hread, ?_⟩
  intro h
  obtain ⟨cs, hcs⟩ := h _ _ _ document_command_list hnames hread (.list []) List.mem_cons_self
  cases hcs

end Config
end SketchPreview
