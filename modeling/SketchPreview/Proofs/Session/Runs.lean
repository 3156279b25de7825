import SketchPreview.Proofs.Session.Detail
import SketchPreview.Proofs.Session.Journal

/-!
Runs of a session over any backend, and the journal that a run leaves.

A backend answers as it likes, each time anew, since its answers come out of a state that the
session does not look into; so a statement about all backends is one about every outcome of every
call.  `Backend.recorded` is a backend that also numbers the sketches it launches and writes down
what is done to them.  Recording changes nothing (`run_recorded`), and the sessions over a recording
backend keep the journal in step with the sketch they hold: `Sound` is that invariant, each
operation of a session preserves it, and so does a run (`run_sound`).  The last section reads from
it how sketches are treated in every run.
-/

namespace SketchPreview

/-- A state with the journal of what was done to sketches. -/
structure Recorded (W : Type) where
  world : W
  journal : Journal := []

structure Numbered (Handle : Type) where
  number : Nat
  handle : Handle

variable {W Program Handle : Type}

/-- The backend that writes down what is done to sketches.  A launch that fails makes no sketch and
leaves no entry. -/
def Backend.recorded (b : Backend W Program Handle) :
    Backend (Recorded W) Program (Numbered Handle) where
  files r := b.files r.world
  dimensions r := b.dimensions r.world
  compile text r :=
    match b.compile text r.world with
    | (result, w) => (result, { r with world := w })
  launch program r :=
    match b.launch program r.world with
    | (.error e, w) => (.error e, { r with world := w })
    | (.ok h, w) =>
      let n := r.journal.launches + 1
      (.ok ⟨n, h⟩, ⟨w, r.journal ++ [.launch n]⟩)
  exit h r :=
    match b.exit h.handle r.world with
    | (result, w) => (result, ⟨w, r.journal ++ [.exit h.number result.isOk]⟩)
  poll h r :=
    match b.poll h.handle r.world with
    | (result, w) => (result, ⟨w, r.journal ++ [.poll h.number result.isOk]⟩)

namespace Session

/-- What can happen to a session: one of its operations, a change of its source by the host, or a
change of the world around it. -/
inductive Move (W : Type) where
  | render
  | handle (event : Event)
  | check
  | close
  | edit (change : Source → Source)
  | world (change : W → W)

def Move.apply (b : Backend W Program Handle) (s : Session Handle) (w : W) :
    Move W → Session Handle × W
  | .render => (s.render b w).2
  | .handle event => (s.handle b event w).2
  | .check => (s.check b w).2
  | .close => (s.close b w).2
  | .edit change => ({ s with source := change s.source }, w)
  | .world change => (s, change w)

def run (b : Backend W Program Handle) (s : Session Handle) (w : W) :
    List (Move W) → Session Handle × W
  | [] => (s, w)
  | move :: moves =>
    match move.apply b s w with
    | (s, w) => run b s w moves

/-- The same move around a recording backend.  The world does not change its journal. -/
def Move.recorded : Move W → Move (Recorded W)
  | .render => .render
  | .handle event => .handle event
  | .check => .check
  | .close => .close
  | .edit change => .edit change
  | .world change => .world fun r => { r with world := change r.world }

/-- A session whose sketch has lost its number. -/
def plain (s : Session (Numbered Handle)) : Session Handle :=
  { source := s.source, config := s.config, live := s.live.map Numbered.handle }

/-! ## Recording changes nothing -/

theorem details_recorded (b : Backend W Program Handle) :
    b.Details b.recorded ⟨Recorded.world, id, Numbered.handle⟩ where
  files _ := rfl
  dimensions _ := rfl
  compile text r := by
    rcases h : b.compile text r.world with ⟨_ | _, w⟩ <;> simp [Backend.recorded, h]
  launch program r := by
    rcases h : b.launch program r.world with ⟨_ | _, w⟩ <;> simp [Backend.recorded, h, Except.map]
  exit _ _ := rfl
  poll _ _ := rfl

theorem apply_recorded (b : Backend W Program Handle) (s : Session (Numbered Handle))
    (r : Recorded W) (move : Move W) :
    move.apply b s.plain r.world =
      ((move.recorded.apply b.recorded s r).1.plain,
        (move.recorded.apply b.recorded s r).2.world) := by
  have hdetails := details_recorded b
  cases move with
  | render => exact (congrArg Prod.snd (hdetails.render s r)).symm
  | handle event => exact (congrArg Prod.snd (hdetails.handle s r event)).symm
  | check => exact (congrArg Prod.snd (hdetails.check s r)).symm
  | close => exact (congrArg Prod.snd (hdetails.close s r)).symm
  | edit change => rfl
  | world change => rfl

theorem run_recorded (b : Backend W Program Handle) (moves : List (Move W))
    (s : Session (Numbered Handle)) (r : Recorded W) :
    run b s.plain r.world moves =
      ((run b.recorded s r (moves.map Move.recorded)).1.plain,
        (run b.recorded s r (moves.map Move.recorded)).2.world) := by
  induction moves generalizing s r with
  | nil => rfl
  | cons move moves ih =>
    rw [run, apply_recorded, List.map_cons, run]
    exact ih _ _

/-! ## Sessions keep their journals -/

/-- The journal is in step with the sketch that the session holds. -/
def Sound (s : Session (Numbered Handle)) (r : Recorded W) : Prop :=
  r.journal.Keeps (s.live.map Numbered.number)

section Sound

variable {b : Backend W Program Handle} {s : Session (Numbered Handle)} {r : Recorded W}

theorem Sound.close (h : Sound s r) :
    Sound (s.close b.recorded r).2.1 (s.close b.recorded r).2.2 ∧
      ((s.close b.recorded r).1 = .ok () → (s.close b.recorded r).2.1.live = none) := by
  obtain ⟨source, config, live⟩ := s
  cases live with
  | none => exact ⟨h, fun _ => rfl⟩
  | some sketch =>
    have htell : ∀ ok, Journal.Keeps (r.journal ++ [.exit sketch.number ok])
        (if ok then none else some sketch.number) :=
      fun ok => Journal.Keeps.tell (a := .exit sketch.number ok) h rfl
    rcases hexit : b.exit sketch.handle r.world with ⟨e | _, w⟩
    · have hclose : Session.close b.recorded ⟨source, config, some sketch⟩ r =
          (.error e, ⟨source, config, some sketch⟩,
            ⟨w, r.journal ++ [.exit sketch.number false]⟩) := by
        simp [Session.close, Backend.recorded, hexit, Except.isOk, Except.toBool]
      rw [hclose]
      exact ⟨htell false, fun hok => by simp at hok⟩
    · have hclose : Session.close b.recorded ⟨source, config, some sketch⟩ r =
          (.ok (), ⟨source, config, none⟩, ⟨w, r.journal ++ [.exit sketch.number true]⟩) := by
        simp [Session.close, Backend.recorded, hexit, Except.isOk, Except.toBool]
      rw [hclose]
      exact ⟨htell true, fun _ => rfl⟩

theorem Sound.check (h : Sound s r) :
    Sound (s.check b.recorded r).2.1 (s.check b.recorded r).2.2 := by
  obtain ⟨source, config, live⟩ := s
  cases live with
  | none => exact h
  | some sketch =>
    have htell : ∀ ok, Journal.Keeps (r.journal ++ [.poll sketch.number ok])
        (if !ok then none else some sketch.number) :=
      fun ok => Journal.Keeps.tell (a := .poll sketch.number ok) h rfl
    rcases hpoll : b.poll sketch.handle r.world with ⟨e | _, w⟩
    · have hcheck : Session.check b.recorded ⟨source, config, some sketch⟩ r =
          (.error e, ⟨source, config, none⟩,
            ⟨w, r.journal ++ [.poll sketch.number false]⟩) := by
        simp [Session.check, Backend.recorded, hpoll, Except.isOk, Except.toBool]
      rw [hcheck]
      exact htell false
    · have hcheck : Session.check b.recorded ⟨source, config, some sketch⟩ r =
          (.ok (), ⟨source, config, some sketch⟩,
            ⟨w, r.journal ++ [.poll sketch.number true]⟩) := by
        simp [Session.check, Backend.recorded, hpoll, Except.isOk, Except.toBool]
      rw [hcheck]
      exact htell true

/-- A new sketch is launched only after the old one has been closed, and is held then. -/
theorem Sound.replace (h : Sound s r) (program : Program) :
    Sound (s.replace b.recorded program r).2.1 (s.replace b.recorded program r).2.2 := by
  obtain ⟨hsound, hnone⟩ := h.close (b := b)
  rw [Session.replace]
  rcases hclose : s.close b.recorded r with ⟨e | _, t, q⟩
  · rw [hclose] at hsound
    exact hsound
  · rw [hclose] at hsound hnone
    have hlive : t.live = none := hnone rfl
    rcases hlaunch : b.launch program q.world with ⟨e | sketch, w⟩
    · have hw : Sound t { q with world := w } := hsound
      simpa [Backend.recorded, hlaunch] using hw
    · have hkeeps : q.journal.Keeps none := by
        rw [Sound, hlive] at hsound
        exact hsound
      simpa [Backend.recorded, hlaunch, Sound] using hkeeps.launch

theorem Sound.render (h : Sound s r) :
    Sound (s.render b.recorded r).2.1 (s.render b.recorded r).2.2 := by
  rw [Session.render]
  split
  · exact h
  · exact h
  · rename_i text _
    rcases hcompile : b.compile (Sketch.windowed (b.dimensions r.world) text) r.world
      with ⟨e | program, w⟩
    all_goals have hw : Sound s { r with world := w } := h
    · simpa [Backend.recorded, hcompile] using hw
    · simpa [Backend.recorded, hcompile] using hw.replace program

theorem Sound.handle (h : Sound s r) (event : Event) :
    Sound (s.handle b.recorded event r).2.1 (s.handle b.recorded event r).2.2 := by
  rw [Session.handle_eq]
  split
  · exact h.render
  · exact h

theorem Sound.apply (h : Sound s r) (move : Move W) :
    Sound (move.recorded.apply b.recorded s r).1 (move.recorded.apply b.recorded s r).2 := by
  cases move with
  | render => exact h.render
  | handle event => exact h.handle event
  | check => exact h.check
  | close => exact h.close.1
  | edit change => exact h
  | world change => exact h

theorem run_sound (moves : List (Move W)) (h : Sound s r) :
    Sound (run b.recorded s r (moves.map Move.recorded)).1
      (run b.recorded s r (moves.map Move.recorded)).2 := by
  induction moves generalizing s r with
  | nil => exact h
  | cons move moves ih =>
    rw [List.map_cons, run]
    exact ih (h.apply move)

end Sound

/-! ## Every run -/

section Run

variable (b : Backend W Program Handle) (source : Source) (config : Config) (w : W)
  (moves : List (Move W))

def recordedRun : Session (Numbered Handle) × Recorded W :=
  run b.recorded { source, config } { world := w } (moves.map Move.recorded)

theorem recordedRun_sound :
    Sound (recordedRun b source config w moves).1 (recordedRun b source config w moves).2 :=
  run_sound moves Journal.keeps_nil

variable {b}

theorem Sound.isLive_iff {s : Session (Numbered Handle)} {r : Recorded W} (h : Sound s r) :
    s.isLive = true ↔ 0 < r.journal.launches ∧ ¬ r.journal.Ended r.journal.launches := by
  cases hlive : s.live with
  | none =>
    rw [Sound, hlive] at h
    simp only [isLive, hlive, Option.isSome_none, Bool.false_eq_true, false_iff]
    intro hrunning
    obtain ⟨hpos, hlast⟩ := hrunning
    exact hlast (h.ended _ hpos (Nat.le_refl _) (by simp))
  | some sketch =>
    rw [Sound, hlive] at h
    obtain ⟨hlast, hpos, hended⟩ := h.held_last sketch.number rfl
    rw [← hlast]
    simp [isLive, hlive, hpos, hended]

theorem Sound.number_eq {s : Session (Numbered Handle)} {r : Recorded W} (h : Sound s r)
    {sketch : Numbered Handle} (hlive : s.live = some sketch) :
    sketch.number = r.journal.launches := by
  rw [Sound, hlive] at h
  exact (h.held_last sketch.number rfl).1

theorem Sound.drop {s : Session (Numbered Handle)} {r : Recorded W} (h : Sound s r)
    (hexit : ∀ sketch, s.live = some sketch → (b.exit sketch.handle r.world).1 = .ok ()) :
    (s.drop b.recorded r).journal.Keeps none := by
  obtain ⟨hsound, hnone⟩ := h.close (b := b)
  have hok : (s.close b.recorded r).1 = .ok () := by
    cases hlive : s.live with
    | none => simp [Session.close, hlive]
    | some sketch =>
      have hsketch := hexit sketch hlive
      rcases hresult : b.exit sketch.handle r.world with ⟨e | _, w⟩
      · simp [hresult] at hsketch
      · simp [Session.close, hlive, Backend.recorded, hresult]
  rw [Sound, hnone hok] at hsound
  exact hsound

/-- In every run of a session one sketch is treated at a time, the session is live exactly while the
last sketch has not ended, and it holds that sketch.  When the session is dropped and the exit does
not fail, every sketch has ended exactly once. -/
theorem run_oneAtATime (b : Backend W Program Handle) :
    let (s, r) := recordedRun b source config w moves
    let dropped := (s.drop b.recorded r).journal
    run b { source, config } w moves = (s.plain, r.world) ∧
    r.journal.OneAtATime ∧
    (s.isLive = true ↔ 0 < r.journal.launches ∧ ¬ r.journal.Ended r.journal.launches) ∧
    (∀ sketch, s.live = some sketch → sketch.number = r.journal.launches) ∧
    dropped.OneAtATime ∧
    ((∀ sketch, s.live = some sketch → (b.exit sketch.handle r.world).1 = .ok ()) →
      ∀ n, 0 < n → n ≤ dropped.launches →
        dropped.countP (fun act => act.sketch == n && act.ends) = 1) := by
  have hsound := recordedRun_sound b source config w moves
  have hplain := run_recorded b moves { source, config } { world := w }
  refine ⟨hplain, hsound.orderly.oneAtATime, hsound.isLive_iff,
    fun sketch hlive => hsound.number_eq hlive, hsound.close.1.orderly.oneAtATime, ?_⟩
  intro hexit n hpos hle
  exact (hsound.drop hexit).countP_ends hpos hle

end Run

end Session
end SketchPreview
