import SketchPreview.Proofs.Session.Launches
import SketchPreview.Proofs.Text.Utf8
import SketchPreview.Watcher

/-!
A watched file whose session misses no change.

A preview polls the watcher of its file and handles the events that are reported, while the file may
be written, removed and made again at any moment, also between a poll and the handling of its event.
The watcher keeps the stamp of the file before the session reads the text, so a change in between
shows in the next poll.  `run_shows_current`: when every change leaves the file missing or with a
stamp that it never had and no render fails, then behind the first render a poll that reports nothing
finds the text that was launched last.  The first render may be one for an event, too.

`Settled` is the invariant.  It speaks about the moments in which the watcher has seen the file as
it is and nothing waits to be handled.  A stamp that the watcher keeps is one that the file had, so
a change makes such a moment end (`Renewed.existing_eq`), and only a render, or a poll that finds
nothing new, begins one.
-/

namespace SketchPreview

/-! ## Stamps that tell changes -/

namespace Files
namespace Tree

variable {p : Path} {before now : Tree}

/-- Between two moments a file stays as it is, or goes, or gets a stamp that it never had. -/
def Renewed (p : Path) (had : List Stamp) (before now : Tree) : Prop :=
  now.existing p = before.existing p ∨ ∀ stamp ∈ now.stamp? p, stamp ∉ had

theorem stamp?_congr (h : now.existing p = before.existing p) : now.stamp? p = before.stamp? p := by
  rw [stamp?, stamp?, h]

theorem readText_congr (h : now.existing p = before.existing p) :
    now.readText p = before.readText p := by
  rw [readText, readText, h]

theorem exists_stamp_of_readText {text : Text} (h : now.readText p = .ok text) :
    ∃ stamp, now.stamp? p = some stamp := by
  rw [readText] at h
  rw [stamp?]
  split at h
  · simp at h
  · rename_i hfile
    rw [hfile]
    exact ⟨_, rfl⟩
  · simp at h

/-- A file with text that looks as it did to someone who saw it before is as it was. -/
theorem Renewed.existing_eq {had : List Stamp} (h : Renewed p had before now)
    {last : Option Stamp} (hlast : ∀ stamp ∈ last, stamp ∈ had) (hseen : last = now.stamp? p)
    {text : Text} (htext : now.readText p = .ok text) : now.existing p = before.existing p := by
  rcases h with hsame | hnew
  · exact hsame
  · obtain ⟨stamp, hstamp⟩ := exists_stamp_of_readText htext
    exfalso
    refine hnew stamp hstamp (hlast stamp ?_)
    rw [hseen]
    exact hstamp

end Tree
end Files

namespace Watcher

variable {tree : Files.Tree} {w : Watcher}

theorem eq_fileChanged_of_poll {event : Event} (h : (w.poll tree).1 = some event) :
    event = .fileChanged := by
  rw [poll] at h
  split at h
  · exact (Option.some.inj h).symm
  · simp at h

theorem poll_eq_none_iff :
    (w.poll tree).1 = none ↔ tree.stamp? w.path = none ∨ tree.stamp? w.path = w.last := by
  cases hstamp : tree.stamp? w.path <;> simp [poll, hstamp]

end Watcher

variable {W Program Handle : Type}

/-! ## The loop -/

/-- A session whose source is a watched file, in the world around it. -/
structure Preview (W Handle : Type) where
  session : Session Handle
  watcher : Watcher
  world : W
  /-- What was reported and not handled yet, the latest last. -/
  pending : List Event := []
  /-- The errors of renders, the latest first. -/
  errors : List PreviewError := []

namespace Preview

/-- A preview as it begins: the watcher has seen the file, and nothing has been rendered. -/
def start (b : Backend W Program Handle) (p : Path) (config : Config) (w : W) :
    Preview W Handle where
  session := { source := .file p, config }
  watcher := Watcher.start (b.files w) p
  world := w

/-- A step of the loop, or a change of the world around it. -/
inductive Move (W : Type) where
  | render
  | poll
  /-- Handles the event that has waited longest. -/
  | handle
  | check
  | world (change : W → W)

/-- The preview behind a render, whose error is shown. -/
def rendered {α : Type} (l : Preview W Handle) :
    Except PreviewError α × Session Handle × W → Preview W Handle
  | (.error e, s, w) => { l with session := s, world := w, errors := e :: l.errors }
  | (.ok _, s, w) => { l with session := s, world := w }

def Move.apply (b : Backend W Program Handle) (l : Preview W Handle) : Move W → Preview W Handle
  | .render => l.rendered (l.session.render b l.world)
  | .poll =>
    match l.watcher.poll (b.files l.world) with
    | (event, watcher) => { l with watcher, pending := l.pending ++ event.toList }
  | .handle =>
    match l.pending with
    | [] => l
    | event :: pending => { l with pending }.rendered (l.session.handle b event l.world)
  | .check =>
    match l.session.check b l.world with
    | (_, s, w) => { l with session := s, world := w }
  | .world change => { l with world := change l.world }

def run (b : Backend W Program Handle) (l : Preview W Handle) : List (Move W) → Preview W Handle
  | [] => l
  | move :: moves => run b (move.apply b l) moves

/-- Whether a move renders: as such, or for an event that asks for it. -/
def Move.Renders (l : Preview W Handle) : Move W → Prop
  | .render => True
  | .handle => ∃ event ∈ l.pending.head?, event.triggersRender l.session.config.liveUpdate = true
  | .poll | .check | .world _ => False

/-- Whether something is rendered along a run. -/
def Renders (b : Backend W Program Handle) : Preview W Handle → List (Move W) → Prop
  | _, [] => False
  | l, move :: moves => move.Renders l ∨ Renders b (move.apply b l) moves

/-- Every change of a file along a run leaves it missing or with a stamp that it never had. -/
def Renewing (b : Backend W Program Handle) (p : Path) :
    List Files.Stamp → Preview W Handle → List (Move W) → Prop
  | _, _, [] => True
  | had, l, move :: moves =>
    let next := move.apply b l
    (b.files l.world).Renewed p had (b.files next.world) ∧
      Renewing b p (((b.files next.world).stamp? p).toList ++ had) next moves

/-! ## Remembering launches changes nothing -/

/-- The same move in a world that remembers launches.  A change of the world does not touch them. -/
def Move.launching {W : Type} (Program : Type) : Move W → Move (Launching W Program)
  | .render => .render
  | .poll => .poll
  | .handle => .handle
  | .check => .check
  | .world change => .world fun r => { r with world := change r.world }

/-- The preview without the launches. -/
def plain (l : Preview (Launching W Program) Handle) : Preview W Handle :=
  { session := l.session, watcher := l.watcher, world := l.world.world, pending := l.pending,
    errors := l.errors }

section Plain

variable (b : Backend W Program Handle) (l : Preview (Launching W Program) Handle)

theorem plain_rendered {α : Type}
    (fine : Except PreviewError α × Session Handle × Launching W Program) :
    (l.rendered fine).plain = l.plain.rendered (Session.unlaunched fine) := by
  obtain ⟨_ | _, s, r⟩ := fine <;> rfl

theorem apply_launching (move : Move W) :
    ((move.launching Program).apply b.launching l).plain = move.apply b l.plain := by
  cases move with
  | render =>
    show (l.rendered _).plain = l.plain.rendered (l.session.render b l.world.world)
    rw [plain_rendered, Session.render_launching]
  | poll => rfl
  | handle =>
    obtain ⟨session, watcher, world, pending, errors⟩ := l
    cases pending with
    | nil => rfl
    | cons event pending =>
      let l : Preview (Launching W Program) Handle := ⟨session, watcher, world, pending, errors⟩
      show (l.rendered _).plain = l.plain.rendered (session.handle b event world.world)
      rw [plain_rendered, Session.handle_launching]
  | check =>
    simp [Move.launching, Move.apply, plain, ← Session.check_launching, Session.unlaunched]
  | world change => rfl

theorem run_launching (moves : List (Move W)) :
    (run b.launching l (moves.map (Move.launching Program))).plain = run b l.plain moves := by
  induction moves generalizing l with
  | nil => rfl
  | cons move moves ih => rw [List.map_cons, run, run, ih, apply_launching]

end Plain

/-! ## Errors stay -/

section Errors

variable (b : Backend W Program Handle) (l : Preview W Handle)

theorem errors_rendered {α : Type} (r : Except PreviewError α × Session Handle × W) :
    l.errors <:+ (l.rendered r).errors := by
  obtain ⟨_ | _, s, w⟩ := r
  · exact List.suffix_cons _ _
  · exact List.suffix_refl _

theorem errors_apply (move : Move W) : l.errors <:+ (move.apply b l).errors := by
  cases move with
  | render => exact l.errors_rendered _
  | handle =>
    obtain ⟨session, watcher, world, pending, errors⟩ := l
    cases pending with
    | nil => exact List.suffix_refl errors
    | cons event pending =>
      exact errors_rendered ⟨session, watcher, world, pending, errors⟩ _
  | poll => exact List.suffix_refl _
  | check => exact List.suffix_refl _
  | world change => exact List.suffix_refl _

theorem errors_run (moves : List (Move W)) : l.errors <:+ (run b l moves).errors := by
  induction moves generalizing l with
  | nil => exact List.suffix_refl _
  | cons move moves ih => exact (errors_apply b l move).trans (ih _)

end Errors

/-! ## Settled previews -/

/-- The watcher and the session are those of `p`, the stamp that the watcher keeps is among `had`,
and if anything has been rendered and nothing waits to be handled, then a file that looks as the
watcher saw it last is what was launched last. -/
structure Settled (b : Backend W Program Handle) (p : Path) (had : List Files.Stamp) (up : Prop)
    (l : Preview (Launching W Program) Handle) : Prop where
  path : l.watcher.path = p
  source : l.session.source = .file p
  pending : ∀ event ∈ l.pending, event = .fileChanged
  last_mem : ∀ stamp ∈ l.watcher.last, stamp ∈ had
  shown : up → l.pending = [] → l.watcher.last = (b.files l.world.world).stamp? p →
    ∀ text, (b.files l.world.world).readText p = .ok text → text ≠ [] →
      ∃ c, l.world.launched.getLast? = some c ∧ c.Shows b text

section Settled

variable {b : Backend W Program Handle} {p : Path} {had : List Files.Stamp} {up up' : Prop}
  {l l' : Preview (Launching W Program) Handle}

theorem settled_start (config : Config) (w : W) :
    Settled b p ((b.files w).stamp? p).toList False (start b.launching p config ⟨w, []⟩) where
  path := rfl
  source := rfl
  pending := fun _ h => absurd h List.not_mem_nil
  last_mem := fun _ h => Option.mem_toList.mpr h
  shown := False.elim

/-- A step that leaves the watcher alone.  If the watcher has seen the file as it is behind the
step, it had seen it as it was before. -/
theorem Settled.step (h : Settled b p had up l) (hwatcher : l'.watcher = l.watcher)
    (hsource : l'.session.source = l.session.source) (hpending : ∀ e ∈ l'.pending, e ∈ l.pending)
    (hrenewed : (b.files l.world.world).Renewed p had (b.files l'.world.world))
    (hshown : up' → l'.pending = [] →
      l.watcher.last = (b.files l.world.world).stamp? p →
      ∀ text, (b.files l.world.world).readText p = .ok text → text ≠ [] →
        ∃ c, l'.world.launched.getLast? = some c ∧ c.Shows b text) :
    Settled b p (((b.files l'.world.world).stamp? p).toList ++ had) up' l' where
  path := by rw [hwatcher, h.path]
  source := hsource.trans h.source
  pending := fun event hevent => h.pending event (hpending event hevent)
  last_mem := by
    intro stamp hstamp
    rw [hwatcher] at hstamp
    exact List.mem_append_right _ (h.last_mem stamp hstamp)
  shown := by
    intro hup hnone hseen text htext hne
    rw [hwatcher] at hseen
    have hsame := hrenewed.existing_eq h.last_mem hseen htext
    rw [Files.Tree.stamp?_congr hsame] at hseen
    rw [Files.Tree.readText_congr hsame] at htext
    exact hshown hup hnone hseen text htext hne

/-- Behind a render the text that the file held before it is shown, whatever the watcher saw. -/
theorem Settled.rendered (h : Settled b p had up l) (pending : List Event)
    (hpending : ∀ e ∈ pending, e ∈ l.pending)
    (hl' : l' = { l with pending }.rendered (l.session.render b.launching l.world))
    (herrors : l'.errors = [])
    (hrenewed : (b.files l.world.world).Renewed p had (b.files l'.world.world)) :
    Settled b p (((b.files l'.world.world).stamp? p).toList ++ had) up' l' := by
  have hsource := l.session.render_source b.launching l.world
  rcases hrender : l.session.render b.launching l.world with ⟨e | outcome, s, r⟩
  · rw [hl', hrender] at herrors
    exact absurd herrors (List.cons_ne_nil e _)
  · rw [hrender] at hl' hsource
    subst hl'
    refine h.step rfl hsource hpending hrenewed ?_
    intro _ _ _ text htext hne
    have hok : (l.session.render b.launching l.world).1 = .ok outcome := by rw [hrender]
    obtain ⟨c, hlaunched, hshows⟩ := Session.launched_render h.source htext hne hok
    rw [hrender] at hlaunched
    refine ⟨c, ?_, hshows⟩
    show r.launched.getLast? = some c
    rw [hlaunched, List.getLast?_concat]

/-- A poll that reports nothing begins a settled moment only where there was one. -/
theorem Settled.poll (h : Settled b p had up l) :
    Settled b p (((b.files l.world.world).stamp? p).toList ++ had) up
      (Move.poll.apply b.launching l) where
  path := h.path
  source := h.source
  pending := by
    intro event hevent
    rcases List.mem_append.mp hevent with hold | hnew
    · exact h.pending event hold
    · exact Watcher.eq_fileChanged_of_poll (Option.mem_toList.mp hnew)
  last_mem := by
    intro stamp hstamp
    have hnow : stamp ∈ (b.files l.world.world).stamp? l.watcher.path := hstamp
    rw [h.path] at hnow
    exact List.mem_append_left had (Option.mem_toList.mpr hnow)
  shown := by
    intro hup hnone _ text htext hne
    obtain ⟨hpending, hevent⟩ := List.append_eq_nil_iff.mp hnone
    have hsilent : (l.watcher.poll (b.files l.world.world)).1 = none :=
      Option.toList_eq_nil_iff.mp hevent
    rw [Watcher.poll_eq_none_iff, h.path] at hsilent
    obtain ⟨stamp, hstamp⟩ := Files.Tree.exists_stamp_of_readText htext
    have hseen : (b.files l.world.world).stamp? p = l.watcher.last :=
      hsilent.resolve_left fun hgone => Option.some_ne_none stamp (hstamp.symm.trans hgone)
    exact h.shown hup hpending hseen.symm text htext hne

theorem Settled.mono (h : Settled b p had up l) (hup : up' → up) : Settled b p had up' l :=
  { h with shown := fun hnow => h.shown (hup hnow) }

theorem Settled.apply (h : Settled b p had up l) {move : Move W}
    (herrors : ((move.launching Program).apply b.launching l).errors = [])
    (hrenewed : (b.files l.world.world).Renewed p had
      (b.files ((move.launching Program).apply b.launching l).world.world)) :
    Settled b p (((b.files ((move.launching Program).apply b.launching l).world.world).stamp?
        p).toList ++ had) (up ∨ move.Renders l.plain)
      ((move.launching Program).apply b.launching l) := by
  cases move with
  | render => exact h.rendered l.pending (fun _ he => he) rfl herrors hrenewed
  | poll => exact h.poll.mono fun hup => hup.resolve_right id
  | handle =>
    obtain ⟨session, watcher, world, pending, errors⟩ := l
    cases pending with
    | nil =>
      -- Nothing waits, so nothing is rendered.
      have hidle : ¬Move.handle.Renders (plain ⟨session, watcher, world, [], errors⟩) := by
        rintro ⟨event, hevent, -⟩
        exact Option.some_ne_none event hevent.symm
      exact h.step rfl rfl (fun _ he => he) hrenewed fun hup =>
        h.shown (hup.resolve_right hidle)
    | cons event pending =>
      obtain rfl : event = .fileChanged := h.pending event List.mem_cons_self
      have hhandle : Move.handle.apply b.launching
          ⟨session, watcher, world, .fileChanged :: pending, errors⟩ =
          Preview.rendered ⟨session, watcher, world, pending, errors⟩
            (session.render b.launching world) := by
        show Preview.rendered _ (session.handle b.launching .fileChanged world) = _
        rw [Session.handle_fileChanged]
        rcases session.render b.launching world with ⟨_ | _, s, r⟩ <;> rfl
      exact h.rendered pending (fun _ he => List.mem_cons_of_mem _ he) hhandle herrors hrenewed
  | check =>
    refine h.step rfl (l.session.check_source b.launching l.world) (fun _ he => he) hrenewed ?_
    intro hup hnone hseen text htext hne
    have hlaunched : ((Move.launching Program .check).apply b.launching l).world.launched =
        l.world.launched := Session.launched_check
    rw [hlaunched]
    exact h.shown (hup.resolve_right id) hnone hseen text htext hne
  | world change =>
    exact h.step rfl rfl (fun _ he => he) hrenewed fun hup => h.shown (hup.resolve_right id)

theorem run_settled (moves : List (Move W)) (h : Settled b p had up l)
    (hrenewing : Renewing b p had l.plain moves)
    (herrors : (run b.launching l (moves.map (Move.launching Program))).errors = []) :
    ∃ had, Settled b p had (up ∨ Renders b l.plain moves)
      (run b.launching l (moves.map (Move.launching Program))) := by
  induction moves generalizing l had up with
  | nil => exact ⟨had, h.mono fun hup => hup.resolve_right id⟩
  | cons move moves ih =>
    obtain ⟨hrenewed, hrest⟩ := hrenewing
    have hplain := apply_launching b l move
    have hworld := congrArg Preview.world hplain
    rw [← hplain] at hrest
    rw [← hworld] at hrenewed
    rw [List.map_cons, run] at herrors ⊢
    have herrors' : ((move.launching Program).apply b.launching l).errors = [] :=
      List.suffix_nil.mp (herrors ▸ errors_run b.launching _ (moves.map (Move.launching Program)))
    obtain ⟨had, hsettled⟩ := ih (h.apply herrors' hrenewed) hrest herrors
    refine ⟨had, hsettled.mono ?_⟩
    rw [hplain, or_assoc]
    exact id

end Settled

/-! ## Every run -/

section Run

variable (b : Backend W Program Handle) (p : Path) (config : Config) (w : W) (moves : List (Move W))

def launchingRun : Preview (Launching W Program) Handle :=
  run b.launching (start b.launching p config ⟨w, []⟩) (moves.map (Move.launching Program))

theorem plain_launchingRun :
    (launchingRun b p config w moves).plain = run b (start b p config w) moves :=
  run_launching b _ moves

variable {b p config w moves}

/-- No change of a watched file is lost.  Once something has been rendered, when nothing waits to be
handled and a poll reports nothing, the text of the file is what was launched last. -/
theorem run_shows_current
    (hrenewing : Renewing b p ((b.files w).stamp? p).toList (start b p config w) moves)
    (hrender : Renders b (start b p config w) moves)
    (herrors : (run b (start b p config w) moves).errors = [])
    (hpending : (run b (start b p config w) moves).pending = [])
    (hpoll : ((run b (start b p config w) moves).watcher.poll
      (b.files (run b (start b p config w) moves).world)).1 = none)
    {text : Text}
    (htext : (b.files (run b (start b p config w) moves).world).readText p = .ok text)
    (hne : text ≠ []) :
    (launchingRun b p config w moves).plain = run b (start b p config w) moves ∧
      ∃ c, (launchingRun b p config w moves).world.launched.getLast? = some c ∧
        c.Shows b text := by
  have hplain := plain_launchingRun b p config w moves
  refine ⟨hplain, ?_⟩
  rw [← hplain] at herrors hpending hpoll htext
  obtain ⟨had, hsettled⟩ : ∃ had, Settled b p had (False ∨ Renders b (start b p config w) moves)
      (launchingRun b p config w moves) :=
    run_settled moves (settled_start config w) hrenewing herrors
  -- With one more poll the watcher has seen the file as it is.
  refine hsettled.poll.shown (Or.inr hrender) ?_ ?_ text htext hne
  · exact List.append_eq_nil_iff.mpr ⟨hpending, Option.toList_eq_nil_iff.mpr hpoll⟩
  · exact congrArg (b.files (launchingRun b p config w moves).world.world).stamp? hsettled.path

end Run

/-! ## A world of one file -/

/-- The text and the time of the file, if it is there. -/
abbrev Shelf := Option (Text × Nat)

namespace Shelf

def path : Path := ⟨"/s".toList.map fun c => UInt8.ofNat c.toNat⟩

def files (shelf : Shelf) : Files.Tree where
  node? place :=
    if place = [[0x73]] then shelf.map fun (text, time) => .file (Text.Utf8.encode text) time
    else none
  working := []
  clock := 0

/-- The backend of the world, whose sketches all run and exit. -/
def backend : Backend Shelf Text Unit where
  files := files
  dimensions _ := .standard
  compile text shelf := (.ok text, shelf)
  launch _ shelf := (.ok (), shelf)
  exit _ shelf := (.ok (), shelf)
  poll _ shelf := (.ok (), shelf)

theorem files_backend (shelf : Shelf) : backend.files shelf = shelf.files := rfl

theorem existing_files (shelf : Shelf) :
    shelf.files.existing path =
      match shelf with
      | some (text, time) => .ok (.file (Text.Utf8.encode text) time)
      | none => .error .notFound := by
  have hsteps : Files.Step.ofPath path = [.name [0x73]] := by decide
  have habsolute : path.isAbsolute = true := by decide
  have hfind : shelf.files.find .target path =
      shelf.files.walk .target Files.mostLinks [] [.name [0x73]] := by
    rw [Files.Tree.find, if_neg (by decide), if_neg (by decide), if_neg (by decide), hsteps,
      habsolute, if_pos rfl]
  rw [Files.Tree.existing, hfind, Files.Tree.walk]
  rcases shelf with _ | ⟨text, time⟩ <;> simp [files, Files.longestName]

theorem stamp?_files (shelf : Shelf) :
    shelf.files.stamp? path =
      shelf.map fun (text, time) => ⟨time, (Text.Utf8.encode text).length⟩ := by
  rw [Files.Tree.stamp?, existing_files]
  cases shelf <;> rfl

theorem readText_files (text : Text) (time : Nat) :
    (files (some (text, time))).readText path = .ok text := by
  simp [Files.Tree.readText, existing_files, Text.Utf8.decode_encode]

theorem render_backend {s : Session Unit} (hs : s.source = .file path) {text : Text}
    (hne : text ≠ []) (time : Nat) :
    s.render backend (some (text, time)) =
      (.ok .rendered, { s with live := some () }, some (text, time)) := by
  have hread : s.source.read (backend.files (some (text, time))) = .ok (some text) := by
    rw [hs]
    exact ((Source.reading_read _ _).text text).mpr ⟨readText_files text time, hne⟩
  obtain ⟨source, config, _ | live⟩ := s <;>
    · rw [Session.render, hread]
      rfl

theorem check_backend (s : Session Unit) (shelf : Shelf) :
    s.check backend shelf = (.ok (), s, shelf) := by
  obtain ⟨source, config, _ | live⟩ := s <;> rfl

end Shelf

/-- The file is made, which renders it for the first time, removed, made again, and written once more
between a poll and the handling of its event. -/
theorem run_shows_current_rewritten :
    let put : Shelf → Move Shelf := fun shelf => .world fun _ => shelf
    let moves := [put (some (['a'], 1)), .poll, .handle, put none, .poll, put (some (['b'], 2)),
      .poll, put (some (['c'], 3)), .handle, .check, .poll, .handle]
    let first := start Shelf.backend Shelf.path {} none
    let l := run Shelf.backend first moves
    (Renewing Shelf.backend Shelf.path ((Shelf.backend.files none).stamp? Shelf.path).toList first
        moves ∧
      .render ∉ moves ∧ Renders Shelf.backend first moves ∧ l.errors = [] ∧ l.pending = [] ∧
      (l.watcher.poll (Shelf.backend.files l.world)).1 = none ∧
      (Shelf.backend.files l.world).readText Shelf.path = .ok ['c'] ∧ ['c'] ≠ []) ∧
    ∃ c, (launchingRun Shelf.backend Shelf.path {} none moves).world.launched.getLast? = some c ∧
      c.Shows Shelf.backend ['c'] := by
  generalize ({} : Config) = config
  intro put moves first l
  have hrenewing : Renewing Shelf.backend Shelf.path
      ((Shelf.backend.files none).stamp? Shelf.path).toList first moves := by
    simp [moves, put, first, start, Renewing, Files.Tree.Renewed, Move.apply, rendered,
      Watcher.start, Watcher.poll, Session.handle_fileChanged, Except.map, Shelf.files_backend,
      Shelf.existing_files, Shelf.stamp?_files, Shelf.render_backend, Shelf.check_backend]
  have hsize : 'c'.utf8Size = 1 := by decide
  have hl : l = ⟨{ source := .file Shelf.path, config, live := some () },
      ⟨Shelf.path, some ⟨3, 1⟩⟩, some (['c'], 3), [], []⟩ := by
    simp [l, moves, put, first, start, run, Move.apply, rendered, Watcher.start, Watcher.poll,
      Session.handle_fileChanged, Except.map, Shelf.files_backend, Shelf.stamp?_files,
      Shelf.render_backend, Shelf.check_backend, hsize]
  have hexplicit : .render ∉ moves := by simp [moves, put]
  have hrender : Renders Shelf.backend first moves := by
    -- The second poll reports the file, and handling that renders.
    refine .inr (.inr (.inl ⟨.fileChanged, ?_, rfl⟩))
    simp [put, first, start, Move.apply, Watcher.start, Watcher.poll, Shelf.files_backend,
      Shelf.stamp?_files]
  have herrors : l.errors = [] := by rw [hl]
  have hpending : l.pending = [] := by rw [hl]
  have hpoll : (l.watcher.poll (Shelf.backend.files l.world)).1 = none := by
    simp [hl, Watcher.poll, Shelf.files_backend, Shelf.stamp?_files, hsize]
  have htext : (Shelf.backend.files l.world).readText Shelf.path = .ok ['c'] := by
    rw [hl]
    exact Shelf.readText_files ['c'] 3
  have hne : ['c'] ≠ [] := List.cons_ne_nil 'c' []
  exact ⟨⟨hrenewing, hexplicit, hrender, herrors, hpending, hpoll, htext, hne⟩,
    (run_shows_current hrenewing hrender herrors hpending hpoll htext hne).2⟩

end Preview
end SketchPreview
