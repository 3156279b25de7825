import SketchPreview.Proofs.Session.Detail
import SketchPreview.Rehearsal

/-!
Rendering replaces the live sketch or leaves it alone.

`Backend.traced` is a backend that also keeps every call made of it with what came of it, which
changes nothing (`details_traced`).  A render makes its calls in one order and stops at the first that
fails: `Replacing` lists what can become of a compiled program, `Rendering` what can become of a
render, and every render is one of these (`render_rendering`).  What is seen of a render then tells
where the session stands (`AllOrNothing`); handling an event is a render or no call at all
(`render_allOrNothing`).
-/

namespace SketchPreview

variable {W Program Handle : Type}

/-- A call of a backend, and what came of it. -/
inductive Backend.Call (Program Handle : Type) where
  | compile (source : Text) (result : Except PreviewError Program)
  | launch (program : Program) (result : Except PreviewError Handle)
  | exit (sketch : Handle) (result : Except PreviewError Unit)
  | poll (sketch : Handle) (result : Except PreviewError Unit)

/-- A world with the calls that were made in it, the latest last. -/
structure Traced (W Program Handle : Type) where
  world : W
  calls : List (Backend.Call Program Handle) := []

/-- The backend that remembers what was asked of it. -/
def Backend.traced (b : Backend W Program Handle) :
    Backend (Traced W Program Handle) Program Handle where
  files r := b.files r.world
  dimensions r := b.dimensions r.world
  compile source r :=
    match b.compile source r.world with
    | (result, w) => (result, ⟨w, r.calls ++ [.compile source result]⟩)
  launch program r :=
    match b.launch program r.world with
    | (result, w) => (result, ⟨w, r.calls ++ [.launch program result]⟩)
  exit sketch r :=
    match b.exit sketch r.world with
    | (result, w) => (result, ⟨w, r.calls ++ [.exit sketch result]⟩)
  poll sketch r :=
    match b.poll sketch r.world with
    | (result, w) => (result, ⟨w, r.calls ++ [.poll sketch result]⟩)

theorem Backend.details_traced (b : Backend W Program Handle) :
    b.Details b.traced ⟨Traced.world, id, id⟩ where
  files _ := rfl
  dimensions _ := rfl
  compile source r := by
    rcases h : b.compile source r.world with ⟨_ | _, w⟩ <;> simp [traced, h]
  launch program r := by
    rcases h : b.launch program r.world with ⟨_ | _, w⟩ <;> simp [traced, h]
  exit _ _ := rfl
  poll _ _ := rfl

namespace Session

/-- What a render gives, without the calls. -/
def untraced :
    Except PreviewError Outcome × Session Handle × Traced W Program Handle →
      Except PreviewError Outcome × Session Handle × W
  | (result, s, r) => (result, s, r.world)

theorem render_traced (b : Backend W Program Handle) (s : Session Handle)
    (r : Traced W Program Handle) : untraced (s.render b.traced r) = s.render b r.world := by
  have hdetails := b.details_traced.render s r
  rwa [map_id, Forgetting.result, map_id] at hdetails

/-! ## The calls of a render -/

/-- The live sketch, exited. -/
def ends (s : Session Handle) : List (Backend.Call Program Handle) :=
  s.live.toList.map fun old => .exit old (.ok ())

/-- What becomes of a compiled program: the old sketch stays, or it is gone and the new one may be
there. -/
inductive Replacing (s : Session Handle) (program : Program) :
    Except PreviewError Outcome → Session Handle → List (Backend.Call Program Handle) → Prop
  | stuck {old : Handle} {e : PreviewError} (hlive : s.live = some old) :
    Replacing s program (.error e) s [.exit old (.error e)]
  | unlaunched {e : PreviewError} :
    Replacing s program (.error e) { s with live := none } (s.ends ++ [.launch program (.error e)])
  | launched {sketch : Handle} :
    Replacing s program (.ok .rendered) { s with live := some sketch }
      (s.ends ++ [.launch program (.ok sketch)])

/-- What becomes of a render. -/
inductive Rendering (b : Backend W Program Handle) (s : Session Handle) (w : W) :
    Except PreviewError Outcome → Session Handle → List (Backend.Call Program Handle) → Prop
  | unread {e : PreviewError} (hread : s.source.read (b.files w) = .error e) :
    Rendering b s w (.error e) s []
  | empty (hread : s.source.read (b.files w) = .ok none) : Rendering b s w (.ok .noSource) s []
  | uncompiled {text : Text} {e : PreviewError}
    (hread : s.source.read (b.files w) = .ok (some text)) :
    Rendering b s w (.error e) s [.compile (Sketch.windowed (b.dimensions w) text) (.error e)]
  | compiled {text : Text} {program : Program} {result : Except PreviewError Outcome}
    {t : Session Handle} {calls : List (Backend.Call Program Handle)}
    (hread : s.source.read (b.files w) = .ok (some text))
    (hcompile : (b.compile (Sketch.windowed (b.dimensions w) text) w).1 = .ok program)
    (hreplacing : Replacing s program result t calls) :
    Rendering b s w result t
      (.compile (Sketch.windowed (b.dimensions w) text) (.ok program) :: calls)

section Calls

variable (b : Backend W Program Handle) (s : Session Handle) (r : Traced W Program Handle)

theorem close_calls :
    (∃ old e w, s.live = some old ∧
      s.close b.traced r = (.error e, s, ⟨w, r.calls ++ [.exit old (.error e)]⟩)) ∨
    ∃ w, s.close b.traced r = (.ok (), { s with live := none }, ⟨w, r.calls ++ s.ends⟩) := by
  obtain ⟨source, config, live⟩ := s
  cases live with
  | none => exact .inr ⟨r.world, by simp [close, ends]⟩
  | some old =>
    rcases hexit : b.exit old r.world with ⟨e | _, w⟩
    · exact .inl ⟨old, e, w, rfl, by simp [close, Backend.traced, hexit]⟩
    · exact .inr ⟨w, by simp [close, ends, Backend.traced, hexit]⟩

theorem replace_replacing (program : Program) : ∃ calls,
    (s.replace b.traced program r).2.2.calls = r.calls ++ calls ∧
      Replacing s program (s.replace b.traced program r).1 (s.replace b.traced program r).2.1
        calls := by
  rw [replace]
  rcases s.close_calls b r with ⟨old, e, w, hlive, hclose⟩ | ⟨w, hclose⟩
  · rw [hclose]
    exact ⟨_, rfl, .stuck hlive⟩
  · rw [hclose]
    rcases hlaunch : b.launch program w with ⟨e | sketch, w'⟩
    · have htraced : b.traced.launch program ⟨w, r.calls ++ s.ends⟩ =
          (.error e, ⟨w', r.calls ++ s.ends ++ [.launch program (.error e)]⟩) := by
        simp [Backend.traced, hlaunch]
      simp only [htraced]
      exact ⟨_, List.append_assoc .., .unlaunched⟩
    · have htraced : b.traced.launch program ⟨w, r.calls ++ s.ends⟩ =
          (.ok sketch, ⟨w', r.calls ++ s.ends ++ [.launch program (.ok sketch)]⟩) := by
        simp [Backend.traced, hlaunch]
      simp only [htraced]
      exact ⟨_, List.append_assoc .., .launched⟩

theorem render_rendering : ∃ calls, (s.render b.traced r).2.2.calls = r.calls ++ calls ∧
    Rendering b s r.world (s.render b.traced r).1 (s.render b.traced r).2.1 calls := by
  have hfiles : b.traced.files r = b.files r.world := rfl
  have hdimensions : b.traced.dimensions r = b.dimensions r.world := rfl
  rw [render, hfiles, hdimensions]
  rcases hread : s.source.read (b.files r.world) with e | _ | text
  · exact ⟨[], (List.append_nil _).symm, .unread hread⟩
  · exact ⟨[], (List.append_nil _).symm, .empty hread⟩
  · rcases hcompile : b.compile (Sketch.windowed (b.dimensions r.world) text) r.world
      with ⟨e | program, w⟩
    · simp only [Backend.traced, hcompile]
      exact ⟨_, rfl, .uncompiled hread⟩
    · have htraced : b.traced.compile (Sketch.windowed (b.dimensions r.world) text) r =
          (.ok program, ⟨w, r.calls ++
            [.compile (Sketch.windowed (b.dimensions r.world) text) (.ok program)]⟩) := by
        simp [Backend.traced, hcompile]
      simp only [htraced]
      obtain ⟨calls, hcalls, hreplacing⟩ := s.replace_replacing b ⟨w, r.calls ++
        [.compile (Sketch.windowed (b.dimensions r.world) text) (.ok program)]⟩ program
      refine ⟨_, ?_, .compiled hread (by rw [hcompile]) hreplacing⟩
      rw [hcalls, List.append_assoc, List.singleton_append]

end Calls

/-! ## All or nothing -/

/-- What is known of a render from its result and its calls: which of its stages failed, if one did,
and what is live then. -/
structure AllOrNothing (b : Backend W Program Handle) (s : Session Handle) (w : W)
    (result : Except PreviewError Outcome) (t : Session Handle)
    (calls : List (Backend.Call Program Handle)) : Prop where
  /-- Nothing changes but the live sketch. -/
  kept : t.source = s.source ∧ t.config = s.config
  unread : ∀ e, s.source.read (b.files w) = .error e →
    result = .error e ∧ t.live = s.live ∧ calls = []
  empty : s.source.read (b.files w) = .ok none →
    result = .ok .noSource ∧ t.live = s.live ∧ calls = []
  uncompiled : ∀ source e, .compile source (.error e) ∈ calls →
    result = .error e ∧ t.live = s.live ∧ calls = [.compile source (.error e)]
  stuck : ∀ old e, .exit old (.error e) ∈ calls →
    result = .error e ∧ s.live = some old ∧ t.live = some old ∧
      ∃ source program, calls = [.compile source (.ok program), .exit old (.error e)]
  /-- The old sketch was exited once, if there was one, and nothing is live. -/
  unlaunched : ∀ program e, .launch program (.error e) ∈ calls →
    result = .error e ∧ t.live = none ∧
      ∃ source, calls = .compile source (.ok program) :: (s.ends ++ [.launch program (.error e)])
  /-- The old sketch was exited once, if there was one, and then the program of the windowed text was
  launched, which is live now. -/
  rendered : result = .ok .rendered → ∃ text program sketch,
    s.source.read (b.files w) = .ok (some text) ∧
      (b.compile (Sketch.windowed (b.dimensions w) text) w).1 = .ok program ∧
      t.live = some sketch ∧
      calls = .compile (Sketch.windowed (b.dimensions w) text) (.ok program) ::
        (s.ends ++ [.launch program (.ok sketch)])
  noSource : result = .ok .noSource → s.source.read (b.files w) = .ok none
  /-- An error is that of the source or of a call. -/
  failed : ∀ e, result = .error e → s.source.read (b.files w) = .error e ∨
    (∃ source, .compile source (.error e) ∈ calls) ∨ (∃ old, .exit old (.error e) ∈ calls) ∨
    ∃ program, .launch program (.error e) ∈ calls

section AllOrNothing

variable {b : Backend W Program Handle} {s t : Session Handle} {w : W} {program : Program}
  {result : Except PreviewError Outcome} {calls : List (Backend.Call Program Handle)}

@[simp] theorem mem_ends_iff {call : Backend.Call Program Handle} :
    call ∈ s.ends ↔ ∃ old, s.live = some old ∧ call = .exit old (.ok ()) := by
  rw [ends, List.mem_map]
  constructor
  · rintro ⟨old, hold, rfl⟩
    exact ⟨old, Option.mem_toList.mp hold, rfl⟩
  · rintro ⟨old, hold, rfl⟩
    exact ⟨old, Option.mem_toList.mpr hold, rfl⟩

namespace Replacing

theorem kept (h : Replacing s program result t calls) :
    t.source = s.source ∧ t.config = s.config := by
  cases h with
  | stuck => exact ⟨rfl, rfl⟩
  | unlaunched => exact ⟨rfl, rfl⟩
  | launched => exact ⟨rfl, rfl⟩

theorem compile_notMem (h : Replacing s program result t calls) (source : Text)
    (compiled : Except PreviewError Program) : .compile source compiled ∉ calls := by
  cases h with
  | stuck => simp
  | unlaunched => simp
  | launched => simp

theorem of_exit_mem {old : Handle} {e : PreviewError} (h : Replacing s program result t calls)
    (hmem : .exit old (.error e) ∈ calls) :
    result = .error e ∧ s.live = some old ∧ t.live = some old ∧ calls = [.exit old (.error e)] := by
  cases h with
  | @stuck old' e' hlive =>
    obtain ⟨rfl, rfl⟩ : old = old' ∧ e = e' := by simpa using hmem
    exact ⟨rfl, hlive, hlive, rfl⟩
  | unlaunched => simp at hmem
  | launched => simp at hmem

theorem of_launch_mem {launched : Program} {e : PreviewError}
    (h : Replacing s program result t calls) (hmem : .launch launched (.error e) ∈ calls) :
    result = .error e ∧ t.live = none ∧ launched = program ∧
      calls = s.ends ++ [.launch launched (.error e)] := by
  cases h with
  | stuck => simp at hmem
  | @unlaunched e' =>
    obtain ⟨rfl, rfl⟩ : launched = program ∧ e = e' := by simpa using hmem
    exact ⟨rfl, rfl, rfl, rfl⟩
  | launched => simp at hmem

theorem of_rendered (h : Replacing s program (.ok .rendered) t calls) : ∃ sketch,
    t.live = some sketch ∧ calls = s.ends ++ [.launch program (.ok sketch)] := by
  cases h with
  | launched => exact ⟨_, rfl, rfl⟩

theorem not_noSource : ¬ Replacing s program (.ok .noSource) t calls := by
  intro h
  cases h

theorem of_error {e : PreviewError} (h : Replacing s program (.error e) t calls) :
    (∃ old, .exit old (.error e) ∈ calls) ∨ ∃ program, .launch program (.error e) ∈ calls := by
  cases h with
  | stuck => exact .inl ⟨_, List.mem_singleton_self _⟩
  | unlaunched => exact .inr ⟨_, List.mem_append_right _ (List.mem_singleton_self _)⟩

end Replacing

theorem Rendering.allOrNothing (h : Rendering b s w result t calls) :
    AllOrNothing b s w result t calls where
  kept := by
    cases h with
    | unread => exact ⟨rfl, rfl⟩
    | empty => exact ⟨rfl, rfl⟩
    | uncompiled => exact ⟨rfl, rfl⟩
    | compiled _ _ hreplacing => exact hreplacing.kept
  unread e hread := by
    cases h with
    | unread hread' =>
      obtain rfl := Except.error.inj (hread.symm.trans hread')
      exact ⟨rfl, rfl, rfl⟩
    | empty hread' => cases hread.symm.trans hread'
    | uncompiled hread' => cases hread.symm.trans hread'
    | compiled hread' => cases hread.symm.trans hread'
  empty hread := by
    cases h with
    | unread hread' => cases hread.symm.trans hread'
    | empty => exact ⟨rfl, rfl, rfl⟩
    | uncompiled hread' => cases hread.symm.trans hread'
    | compiled hread' => cases hread.symm.trans hread'
  uncompiled source e hmem := by
    cases h with
    | unread => cases hmem
    | empty => cases hmem
    | @uncompiled text e' =>
      obtain ⟨rfl, rfl⟩ : source = Sketch.windowed (b.dimensions w) text ∧ e = e' := by
        simpa using hmem
      exact ⟨rfl, rfl, rfl⟩
    | compiled _ _ hreplacing =>
      rcases List.mem_cons.mp hmem with hcall | hmem
      · cases hcall
      · exact absurd hmem (hreplacing.compile_notMem source _)
  stuck old e hmem := by
    cases h with
    | unread => cases hmem
    | empty => cases hmem
    | uncompiled => simp at hmem
    | compiled _ _ hreplacing =>
      rcases List.mem_cons.mp hmem with hcall | hmem
      · cases hcall
      · obtain ⟨hresult, hold, hlive, rfl⟩ := hreplacing.of_exit_mem hmem
        exact ⟨hresult, hold, hlive, _, _, rfl⟩
  unlaunched program e hmem := by
    cases h with
    | unread => cases hmem
    | empty => cases hmem
    | uncompiled => simp at hmem
    | compiled _ _ hreplacing =>
      rcases List.mem_cons.mp hmem with hcall | hmem
      · cases hcall
      · obtain ⟨hresult, hlive, rfl, rfl⟩ := hreplacing.of_launch_mem hmem
        exact ⟨hresult, hlive, _, rfl⟩
  rendered hresult := by
    subst hresult
    cases h with
    | compiled hread hcompile hreplacing =>
      obtain ⟨sketch, hlive, rfl⟩ := hreplacing.of_rendered
      exact ⟨_, _, sketch, hread, hcompile, hlive, rfl⟩
  noSource hresult := by
    subst hresult
    cases h with
    | empty hread => exact hread
    | compiled _ _ hreplacing => exact absurd hreplacing Replacing.not_noSource
  failed e hresult := by
    subst hresult
    cases h with
    | unread hread => exact .inl hread
    | uncompiled => exact .inr (.inl ⟨_, List.mem_singleton_self _⟩)
    | compiled _ _ hreplacing =>
      rcases hreplacing.of_error with ⟨old, hmem⟩ | ⟨program, hmem⟩
      · exact .inr (.inr (.inl ⟨old, List.mem_cons_of_mem _ hmem⟩))
      · exact .inr (.inr (.inr ⟨program, List.mem_cons_of_mem _ hmem⟩))

end AllOrNothing

/-- A render replaces the live sketch or says why not, and an event that is handled is a render or
nothing at all.  What a render reads is told from the file or the buffer. -/
theorem render_allOrNothing (b : Backend W Program Handle) (s : Session Handle) (w : W) :
    let (result, t, r) := s.render b.traced { world := w }
    s.render b w = (result, t, r.world) ∧
    AllOrNothing b s w result t r.calls ∧
    (∀ event : Event,
      s.handle b.traced event { world := w } =
        (if event.triggersRender s.config.liveUpdate then (result.map some, t, r)
          else (.ok none, s, { world := w })) ∧
      s.handle b event w =
        (if event.triggersRender s.config.liveUpdate then (result.map some, t, r.world)
          else (.ok none, s, w))) ∧
    s.source.Reading (b.files w) (s.source.read (b.files w)) := by
  obtain ⟨calls, hcalls, hrendering⟩ := s.render_rendering b { world := w }
  have huntraced := s.render_traced b { world := w }
  rcases hrender : s.render b.traced { world := w } with ⟨result, t, r⟩
  rw [hrender] at hcalls hrendering huntraced
  obtain rfl : r.calls = calls := hcalls
  refine ⟨huntraced.symm, hrendering.allOrNothing, ?_, s.source.reading_read (b.files w)⟩
  intro event
  rw [handle_eq, handle_eq, hrender, ← huntraced]
  exact ⟨rfl, rfl⟩

/-- A sketch in a window takes the place of the one that runs. -/
theorem render_allOrNothing_launches :
    let sized := "size(800, 600);".toList
    let s : Session Nat :=
      { source := .buffer { id := ['e'], title := [], text := "fullScreen();".toList }
        live := some 1 }
    let w : Rehearsal := { files := ⟨fun _ => none, [], 0⟩, launched := 1 }
    let (result, t, r) := s.render Rehearsal.backend.traced { world := w }
    result = .ok .rendered ∧ t.live = some 2 ∧
      r.calls = [.compile sized (.ok sized), .exit 1 (.ok ()), .launch sized (.ok 2)] := by
  intro sized s w
  have hevery := render_allOrNothing Rehearsal.backend s w
  rcases htraced : s.render Rehearsal.backend.traced { world := w } with ⟨result, t, r⟩
  rw [htraced] at hevery
  obtain ⟨hrender, hall, -⟩ := hevery
  have hread : s.source.read (Rehearsal.backend.files w) = .ok (some "fullScreen();".toList) := rfl
  have hsized : Sketch.windowed (Rehearsal.backend.dimensions w) "fullScreen();".toList = sized := by
    decide +kernel
  have hplain : (s.render Rehearsal.backend w).1 = .ok .rendered ∧
      (s.render Rehearsal.backend w).2.1.live = some 2 := by
    rw [render, hread]
    dsimp only
    rw [hsized]
    exact ⟨rfl, rfl⟩
  rw [hrender] at hplain
  obtain ⟨hresult, hlive⟩ := hplain
  obtain ⟨text, program, sketch, htext, hcompile, hsketch, hcalls⟩ := hall.rendered hresult
  obtain rfl : "fullScreen();".toList = text :=
    Option.some.inj (Except.ok.inj (hread.symm.trans htext))
  rw [hsized] at hcompile hcalls
  obtain rfl : sized = program := Except.ok.inj hcompile
  obtain rfl : 2 = sketch := Option.some.inj (hlive.symm.trans hsketch)
  exact ⟨hresult, hlive, hcalls⟩

end Session
end SketchPreview
