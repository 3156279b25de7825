import SketchPreview.Proofs.Session.Detail

/-!
What a session launches.

`Backend.launching` is a backend that also keeps the programs it launched, each with the text and
the world that it was compiled from, which changes nothing (`details_launching`).  `launched_render`
says what a render adds to them; nothing else adds any, and no operation changes the source of the
session (`render_source`).
-/

namespace SketchPreview

variable {W Program Handle : Type}

/-- A program and where it came from. -/
structure Compiled (W Program : Type) where
  program : Program
  text : Text
  /-- The world it was compiled in. -/
  world : W

/-- A world with the programs that were launched in it, the latest last. -/
structure Launching (W Program : Type) where
  world : W
  launched : List (Compiled W Program) := []

/-- The backend that remembers what it launched. -/
def Backend.launching (b : Backend W Program Handle) :
    Backend (Launching W Program) (Compiled W Program) Handle where
  files r := b.files r.world
  dimensions r := b.dimensions r.world
  compile text r :=
    match b.compile text r.world with
    | (.error e, w) => (.error e, { r with world := w })
    | (.ok program, w) => (.ok ⟨program, text, r.world⟩, { r with world := w })
  launch compiled r :=
    match b.launch compiled.program r.world with
    | (.error e, w) => (.error e, { r with world := w })
    | (.ok h, w) => (.ok h, ⟨w, r.launched ++ [compiled]⟩)
  exit h r :=
    match b.exit h r.world with
    | (result, w) => (result, { r with world := w })
  poll h r :=
    match b.poll h r.world with
    | (result, w) => (result, { r with world := w })

/-- The program is that of a sketch, in a window of the size that the surface had. -/
structure Compiled.Shows (b : Backend W Program Handle) (text : Text) (c : Compiled W Program) :
    Prop where
  text_eq : c.text = Sketch.windowed (b.dimensions c.world) text
  compiled : (b.compile c.text c.world).1 = .ok c.program

theorem Backend.details_launching (b : Backend W Program Handle) :
    b.Details b.launching ⟨Launching.world, Compiled.program, id⟩ where
  files _ := rfl
  dimensions _ := rfl
  compile text r := by
    rcases h : b.compile text r.world with ⟨_ | _, w⟩ <;>
      simp [launching, h, Except.map]
  launch program r := by
    rcases h : b.launch program.program r.world with ⟨_ | _, w⟩ <;> simp [launching, h]
  exit h r := rfl
  poll h r := rfl

namespace Session

/-! ## Remembering changes nothing -/

/-- What an operation gives, without the launches. -/
def unlaunched {α : Type} : Except PreviewError α × Session Handle × Launching W Program →
    Except PreviewError α × Session Handle × W
  | (result, s, r) => (result, s, r.world)

section Unlaunched

variable (b : Backend W Program Handle) (s : Session Handle) (r : Launching W Program)

theorem render_launching : unlaunched (s.render b.launching r) = s.render b r.world := by
  have hdetails := b.details_launching.render s r
  rwa [map_id, Forgetting.result, map_id] at hdetails

theorem handle_launching (event : Event) :
    unlaunched (s.handle b.launching event r) = s.handle b event r.world := by
  have hdetails := b.details_launching.handle s r event
  rwa [map_id, Forgetting.result, map_id] at hdetails

theorem check_launching : unlaunched (s.check b.launching r) = s.check b r.world := by
  have hdetails := b.details_launching.check s r
  rwa [map_id, Forgetting.result, map_id] at hdetails

end Unlaunched

/-! ## What operations keep and add -/

section Source

variable (b : Backend W Program Handle) (s : Session Handle) (w : W)

theorem close_source : (s.close b w).2.1.source = s.source := by
  rw [close]
  split
  · rfl
  · split <;> rfl

theorem check_source : (s.check b w).2.1.source = s.source := by
  rw [check]
  split
  · rfl
  · split <;> rfl

theorem replace_source (program : Program) : (s.replace b program w).2.1.source = s.source := by
  have hclose := s.close_source b w
  rw [replace]
  rcases h : s.close b w with ⟨_ | _, t, v⟩ <;> rw [h] at hclose
  · exact hclose
  · dsimp only
    split <;> exact hclose

theorem render_source : (s.render b w).2.1.source = s.source := by
  rw [render]
  split
  · rfl
  · rfl
  · split
    · rfl
    · exact s.replace_source b _ _

/-- A changed file is always rendered. -/
theorem handle_fileChanged :
    s.handle b .fileChanged w = ((s.render b w).1.map some, (s.render b w).2) := by
  rw [handle_eq]
  rfl

end Source

variable {b : Backend W Program Handle} {s : Session Handle} {r : Launching W Program}

theorem launched_close : (s.close b.launching r).2.2.launched = r.launched := by
  obtain ⟨source, config, live⟩ := s
  cases live with
  | none => rfl
  | some h =>
    rcases hexit : b.exit h r.world with ⟨_ | _, w⟩ <;> simp [close, Backend.launching, hexit]

theorem launched_check : (s.check b.launching r).2.2.launched = r.launched := by
  obtain ⟨source, config, live⟩ := s
  cases live with
  | none => rfl
  | some h =>
    rcases hpoll : b.poll h r.world with ⟨_ | _, w⟩ <;> simp [check, Backend.launching, hpoll]

theorem launched_replace {program : Compiled W Program} {outcome : Outcome}
    (h : (s.replace b.launching program r).1 = .ok outcome) :
    (s.replace b.launching program r).2.2.launched = r.launched ++ [program] := by
  have hclose := launched_close (b := b) (s := s) (r := r)
  rw [replace] at h ⊢
  rcases hs : s.close b.launching r with ⟨e | _, t, q⟩ <;> rw [hs] at h hclose
  · simp at h
  · rcases hlaunch : b.launch program.program q.world with ⟨e | _, v⟩
    · simp [Backend.launching, hlaunch] at h
    · rw [← hclose]
      simp [Backend.launching, hlaunch]

/-- A render that succeeds with text in the file launches the program of that text. -/
theorem launched_render {p : Path} {text : Text} {outcome : Outcome} (hsource : s.source = .file p)
    (htext : (b.files r.world).readText p = .ok text) (hne : text ≠ [])
    (hok : (s.render b.launching r).1 = .ok outcome) :
    ∃ c, (s.render b.launching r).2.2.launched = r.launched ++ [c] ∧ c.Shows b text := by
  have hread : s.source.read (b.launching.files r) = .ok (some text) := by
    rw [hsource]
    exact ((Source.reading_read _ _).text text).mpr ⟨htext, hne⟩
  have hdimensions : b.launching.dimensions r = b.dimensions r.world := rfl
  rcases hcompile : b.compile (Sketch.windowed (b.dimensions r.world) text) r.world
    with ⟨e | program, w⟩
  · have hfine : b.launching.compile (Sketch.windowed (b.dimensions r.world) text) r =
        (.error e, { r with world := w }) := by
      simp [Backend.launching, hcompile]
    simp [render, hread, hdimensions, hfine] at hok
  · have hfine : b.launching.compile (Sketch.windowed (b.dimensions r.world) text) r =
        (.ok ⟨program, Sketch.windowed (b.dimensions r.world) text, r.world⟩,
          { r with world := w }) := by
      simp [Backend.launching, hcompile]
    simp only [render, hread, hdimensions, hfine] at hok ⊢
    exact ⟨_, launched_replace hok, rfl, by rw [hcompile]⟩

end Session
end SketchPreview
