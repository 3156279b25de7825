import SketchPreview.Session

/-!
Backends that tell more than others.

What a property says of a backend's past, such as which programs were launched, no backend need
remember.  `Backend.Details` says that one backend does what another does, over worlds, programs and
handles that hold more.  The operations of a session over the two agree up to what is forgotten, so
a record of the past can be kept beside any backend and changes nothing.
-/

namespace SketchPreview

variable {W Program Handle W' Program' Handle' : Type}

/-- The session with other handles. -/
def Session.map (f : Handle' → Handle) (s : Session Handle') : Session Handle :=
  { source := s.source, config := s.config, live := s.live.map f }

@[simp] theorem Session.map_id (s : Session Handle) : s.map id = s := by
  simp [Session.map]

/-- What is forgotten of worlds, programs and handles. -/
structure Forgetting (W' Program' Handle' W Program Handle : Type) where
  world : W' → W
  program : Program' → Program
  handle : Handle' → Handle

/-- What an operation of a session gives, without what is forgotten. -/
def Forgetting.result (f : Forgetting W' Program' Handle' W Program Handle) {α : Type} :
    Except PreviewError α × Session Handle' × W' → Except PreviewError α × Session Handle × W
  | (result, s, r) => (result, s.map f.handle, f.world r)

/-- The backend `fine` does what `b` does. -/
structure Backend.Details (b : Backend W Program Handle) (fine : Backend W' Program' Handle')
    (f : Forgetting W' Program' Handle' W Program Handle) : Prop where
  files : ∀ r, fine.files r = b.files (f.world r)
  dimensions : ∀ r, fine.dimensions r = b.dimensions (f.world r)
  compile : ∀ text r,
    (fine.compile text r).map (Except.map f.program) f.world = b.compile text (f.world r)
  launch : ∀ program r,
    (fine.launch program r).map (Except.map f.handle) f.world =
      b.launch (f.program program) (f.world r)
  exit : ∀ h r, (fine.exit h r).map id f.world = b.exit (f.handle h) (f.world r)
  poll : ∀ h r, (fine.poll h r).map id f.world = b.poll (f.handle h) (f.world r)

namespace Backend.Details

variable {b : Backend W Program Handle} {fine : Backend W' Program' Handle'}
  {f : Forgetting W' Program' Handle' W Program Handle} (h : b.Details fine f)
  (s : Session Handle') (r : W')

include h

theorem close : f.result (s.close fine r) = (s.map f.handle).close b (f.world r) := by
  obtain ⟨source, config, live⟩ := s
  cases live with
  | none => rfl
  | some sketch =>
    have hexit := h.exit sketch r
    rcases hfine : fine.exit sketch r with ⟨_ | _, q⟩ <;>
      · rw [hfine] at hexit
        simp [Session.close, Session.map, Forgetting.result, hfine, ← hexit]

theorem check : f.result (s.check fine r) = (s.map f.handle).check b (f.world r) := by
  obtain ⟨source, config, live⟩ := s
  cases live with
  | none => rfl
  | some sketch =>
    have hpoll := h.poll sketch r
    rcases hfine : fine.poll sketch r with ⟨_ | _, q⟩ <;>
      · rw [hfine] at hpoll
        simp [Session.check, Session.map, Forgetting.result, hfine, ← hpoll]

theorem replace (program : Program') :
    f.result (s.replace fine program r) =
      (s.map f.handle).replace b (f.program program) (f.world r) := by
  rw [Session.replace, Session.replace, ← h.close s r]
  rcases s.close fine r with ⟨e | _, s, r⟩
  · rfl
  · have hlaunch := h.launch program r
    rcases hfine : fine.launch program r with ⟨_ | _, q⟩ <;>
      · rw [hfine] at hlaunch
        simp [Session.map, Forgetting.result, hfine, ← hlaunch, Except.map]

theorem render : f.result (s.render fine r) = (s.map f.handle).render b (f.world r) := by
  have hsource : (s.map f.handle).source = s.source := rfl
  rw [Session.render, Session.render, h.files, h.dimensions, hsource]
  rcases s.source.read (b.files (f.world r)) with e | _ | text
  · rfl
  · rfl
  · have hcompile := h.compile (Sketch.windowed (b.dimensions (f.world r)) text) r
    rcases hfine : fine.compile (Sketch.windowed (b.dimensions (f.world r)) text) r
      with ⟨_ | program, q⟩
    · rw [hfine] at hcompile
      simp [Forgetting.result, hfine, ← hcompile, Except.map]
    · rw [hfine] at hcompile
      simpa [hfine, ← hcompile, Except.map] using h.replace s q program

theorem handle (event : Event) :
    f.result (s.handle fine event r) = (s.map f.handle).handle b event (f.world r) := by
  have hconfig : (s.map f.handle).config = s.config := rfl
  rw [Session.handle_eq, Session.handle_eq, hconfig, ← h.render s r]
  split <;> rfl

end Backend.Details

end SketchPreview
