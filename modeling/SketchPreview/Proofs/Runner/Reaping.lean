import Mathlib.Data.List.Basic
import SketchPreview.Runner.Handle

/-!
Polling and ending a child, in runs of any length.

A handle is `Open` while nobody has noticed the end of its child, and all that was asked of the
system by then are questions that found nothing to collect.  It is `Closed` once the status has been
collected: it is finished, and collecting was the last request of all.  A poll of an open handle
leaves it open and counts down the requests that the child outlives, or closes it (`Open.poll`); an
exit closes it, whichever way the child can be reached (`Open.exit`); and a closed handle asks for
nothing any more (`Closed.apply`).  So every run is a row of polls, at most one call that closes the
handle, and calls that do nothing; `run_reapsOnce` says what the caller and the system see of that.
-/

namespace SketchPreview
namespace Runner

namespace Child

/-- How a child that nobody touches ends: how many requests it outlives, and its status. -/
def ends? : Child → Option (Nat × Status)
  | .running ends? _ => ends?
  | .ended status _ => some (0, status)
  | .collected _ => none

def isCollected : Child → Bool
  | .collected _ => true
  | .running _ _ | .ended _ _ => false

/-- The same end, seen one request earlier. -/
def earlier : Nat × Status → Nat × Status
  | (left, status) => (left + 1, status)

theorem goOn_cases {child : Child} (h : child.isCollected = false) :
    (∃ ends? grouped, child.goOn = .running ends? grouped ∧ child.ends? = ends?.map earlier) ∨
      ∃ status grouped, child.goOn = .ended status grouped ∧ child.ends? = some (0, status) := by
  match child with
  | .running none grouped => exact Or.inl ⟨none, grouped, rfl, rfl⟩
  | .running (some (left + 1, status)) grouped =>
    exact Or.inl ⟨some (left, status), grouped, rfl, rfl⟩
  | .running (some (0, status)) grouped => exact Or.inr ⟨status, grouped, rfl, rfl⟩
  | .ended status grouped => exact Or.inr ⟨status, grouped, rfl, rfl⟩
  | .collected status => simp [isCollected] at h

end Child

/-- Whether the status of the child is collected by a request. -/
def Action.collects : Action → Bool
  | .query collected => collected
  | .wait => true
  | .killGroup | .kill => false

inductive Call where
  | poll
  | exit
deriving DecidableEq

def Call.apply (h : Handle) : Call → Except PreviewError Unit × Handle
  | .poll => h.poll
  | .exit => h.exit

namespace Handle

/-- The answers to calls that follow each other, and the handle behind them. -/
def run (h : Handle) : List Call → List (Except PreviewError Unit) × Handle
  | [] => ([], h)
  | call :: calls =>
    match call.apply h with
    | (answer, h) => (answer :: (run h calls).1, (run h calls).2)

/-- Whether a request has shown that the child is over. -/
def noticed (h : Handle) : Bool := h.log.any Action.collects

structure Open (h : Handle) : Prop where
  unfinished : h.finished = false
  uncollected : h.child.isCollected = false
  idle : ∀ a ∈ h.log, a = .query false

structure Closed (h : Handle) : Prop where
  finished : h.finished = true
  collected : h.child.isCollected = true
  noticed : h.noticed = true
  /-- Whatever was asked, nothing that was asked before it had collected the status. -/
  last : h.log.Pairwise fun _ earlier => earlier.collects = false

variable {h : Handle}

theorem Open.collects_eq_false (ho : h.Open) {a : Action} (ha : a ∈ h.log) :
    a.collects = false := by
  rw [ho.idle a ha]
  rfl

theorem Open.noticed_eq_false (ho : h.Open) : h.noticed = false := by
  rw [noticed, List.any_eq_false]
  intro a ha
  simp [ho.collects_eq_false ha]

/-- The request that collects the status closes a handle, if what was asked on the way to it did not
collect. -/
theorem Open.closed (ho : h.Open) (status : Status) (a : Action) (way : List Action)
    (ha : a.collects = true) (hway : ∀ b ∈ way, b.collects = false) :
    Closed ⟨.collected status, true, a :: (way ++ h.log)⟩ where
  finished := rfl
  collected := rfl
  noticed := by simp [Handle.noticed, ha]
  last := by
    have hbefore : ∀ b ∈ way ++ h.log, b.collects = false := by
      intro b hb
      rcases List.mem_append.mp hb with hb | hb
      · exact hway b hb
      · exact ho.collects_eq_false hb
    exact List.pairwise_cons.mpr ⟨hbefore, List.pairwise_of_forall_mem_list fun _ _ b hb => hbefore b hb⟩

/-! ## One call -/

theorem query_cases (hc : h.child.isCollected = false) :
    (∃ ends? grouped, h.child.ends? = ends?.map Child.earlier ∧
      h.query = (none, ⟨.running ends? grouped, h.finished, .query false :: h.log⟩)) ∨
    ∃ status, h.child.ends? = some (0, status) ∧
      h.query = (some status, ⟨.collected status, h.finished, .query true :: h.log⟩) := by
  rcases Child.goOn_cases hc with ⟨ends?, grouped, hgoOn, hends⟩ | ⟨status, grouped, hgoOn, hends⟩
  · exact Or.inl ⟨ends?, grouped, hends, by simp [query, hgoOn, note]⟩
  · exact Or.inr ⟨status, hends, by simp [query, hgoOn, note]⟩

theorem killGroup_cases (hc : h.child.isCollected = false) :
    (∃ status grouped,
      h.killGroup = (true, ⟨.ended status grouped, h.finished, .killGroup :: h.log⟩)) ∨
    ∃ child, child.isCollected = false ∧
      h.killGroup = (false, ⟨child, h.finished, .killGroup :: h.log⟩) := by
  rcases Child.goOn_cases hc with ⟨ends?, grouped, hgoOn, -⟩ | ⟨status, grouped, hgoOn, -⟩
  all_goals cases grouped
  case inl.false => exact Or.inr ⟨.running ends? false, rfl, by simp [killGroup, hgoOn, note]⟩
  case inl.true => exact Or.inl ⟨.signal killSignal, true, by simp [killGroup, hgoOn, note]⟩
  case inr.false => exact Or.inr ⟨.ended status false, rfl, by simp [killGroup, hgoOn, note]⟩
  case inr.true => exact Or.inl ⟨status, true, by simp [killGroup, hgoOn, note]⟩

theorem exists_killChild (hc : h.child.isCollected = false) :
    ∃ status grouped, h.killChild = ⟨.ended status grouped, h.finished, .kill :: h.log⟩ := by
  rcases Child.goOn_cases hc with ⟨ends?, grouped, hgoOn, -⟩ | ⟨status, grouped, hgoOn, -⟩
  · exact ⟨.signal killSignal, grouped, by simp [killChild, hgoOn, note]⟩
  · exact ⟨status, grouped, by simp [killChild, hgoOn, note]⟩

theorem Open.poll (ho : h.Open) :
    (∃ h' : Handle, h.poll = (.ok (), h') ∧ h'.Open ∧
      h.child.ends? = h'.child.ends?.map Child.earlier) ∨
    ∃ (status : Status) (h' : Handle), h.child.ends? = some (0, status) ∧ h'.Closed ∧
      h.poll = (if status.succeeded then .ok () else .error (.sketchFailed status), h') := by
  rcases query_cases ho.uncollected with ⟨ends?, grouped, hends, hquery⟩ | ⟨status, hends, hquery⟩
  · left
    refine ⟨⟨.running ends? grouped, h.finished, .query false :: h.log⟩, ?_,
      ⟨ho.unfinished, rfl, ?_⟩, hends⟩
    · simp [Handle.poll, ho.unfinished, hquery]
    · intro a ha
      rcases List.mem_cons.mp ha with rfl | ha
      · rfl
      · exact ho.idle a ha
  · right
    refine ⟨status, _, hends,
      ho.closed status (.query true) [] rfl (by simp), ?_⟩
    cases hs : status.succeeded <;> simp [Handle.poll, ho.unfinished, hquery, hs]

/-- To end a child, the signal to its group is enough, or the child has ended without it, or takes a
signal of its own. -/
theorem Open.exit (ho : h.Open) : ∃ h' : Handle, h.exit = (.ok (), h') ∧ h'.Closed := by
  have hexit : h.exit = (.ok (), { h.kill.wait with finished := true }) := by
    rw [Handle.exit, if_neg (by simp [ho.unfinished])]
  rcases killGroup_cases ho.uncollected with ⟨status, grouped, hgroup⟩ | ⟨child, hchild, hgroup⟩
  · refine ⟨_, ?_, ho.closed status .wait [.killGroup] rfl ?_⟩
    · simp [hexit, kill, hgroup, wait, Child.goOn, note]
    · simp [Action.collects]
  rcases query_cases (h := ⟨child, h.finished, .killGroup :: h.log⟩) hchild with
    ⟨ends?, grouped, -, hquery⟩ | ⟨status, -, hquery⟩
  · obtain ⟨status, grouped, hkill⟩ := exists_killChild
      (h := ⟨.running ends? grouped, h.finished, .query false :: .killGroup :: h.log⟩) rfl
    refine ⟨_, ?_, ho.closed status .wait [.kill, .query false, .killGroup] rfl ?_⟩
    · simp [hexit, kill, hgroup, hquery, hkill, wait, Child.goOn, note]
    · simp [Action.collects]
  · refine ⟨_, ?_, ho.closed status (.query true) [.killGroup] rfl ?_⟩
    · simp [hexit, kill, hgroup, hquery, wait, Child.goOn]
    · simp [Action.collects]

theorem Closed.apply (hc : h.Closed) (call : Call) : call.apply h = (.ok (), h) := by
  cases call with
  | poll => simp [Call.apply, Handle.poll, hc.finished]
  | exit => simp [Call.apply, Handle.exit, hc.finished]

theorem Closed.drop (hc : h.Closed) : h.drop = h := by
  rw [Handle.drop, show h.exit = _ from hc.apply .exit]

/-! ## Runs -/

theorem length_run (h : Handle) (calls : List Call) : (h.run calls).1.length = calls.length := by
  induction calls generalizing h with
  | nil => rfl
  | cons call calls ih => simp [run, ih]

theorem Closed.run (hc : h.Closed) (calls : List Call) :
    h.run calls = (calls.map fun _ => .ok (), h) := by
  induction calls with
  | nil => rfl
  | cons call calls ih => simp [Handle.run, hc.apply, ih]

/-- A run leaves the handle closed, unless it consists of polls that found nothing to collect. -/
theorem Open.run (ho : h.Open) (calls : List Call) :
    (h.run calls).2.Closed ∨ (.exit ∉ calls ∧ (h.run calls).2.Open) := by
  induction calls generalizing h with
  | nil => exact Or.inr ⟨List.not_mem_nil, ho⟩
  | cons call calls ih =>
    cases call with
    | exit =>
      obtain ⟨h', hexit, hclosed⟩ := ho.exit
      left
      simpa [Handle.run, Call.apply, hexit, hclosed.run] using hclosed
    | poll =>
      rcases ho.poll with ⟨h', hpoll, hopen, -⟩ | ⟨status, h', -, hclosed, hpoll⟩
      · simpa [Handle.run, Call.apply, hpoll] using ih hopen
      · left
        simpa [Handle.run, Call.apply, hpoll, hclosed.run] using hclosed

/-- The only error of a run is that of the poll which collects the status of a child that has ended
by itself and failed. -/
theorem Open.error_iff (ho : h.Open) (calls : List Call) (i : Nat) (error : PreviewError) :
    (h.run calls).1[i]? = some (.error error) ↔
      ∃ status, h.child.ends? = some (i, status) ∧ i < calls.length ∧
        (∀ call ∈ calls.take (i + 1), call = .poll) ∧ status.succeeded = false ∧
        error = .sketchFailed status := by
  induction calls generalizing h i with
  | nil => simp [Handle.run]
  | cons call calls ih =>
    cases call with
    | exit =>
      obtain ⟨h', hexit, hclosed⟩ := ho.exit
      have hrun : h.run (.exit :: calls) = (.ok () :: calls.map fun _ => .ok (), h') := by
        simp [Handle.run, Call.apply, hexit, hclosed.run]
      constructor
      · intro herror
        have hmem := List.mem_of_getElem? herror
        simp [hrun] at hmem
      · rintro ⟨status, -, -, hpolls, -⟩
        simpa using hpolls .exit (by simp)
    | poll =>
      rcases ho.poll with ⟨h', hpoll, hopen, hends⟩ | ⟨status, h', hends, hclosed, hpoll⟩
      · have hrun : h.run (.poll :: calls) = (.ok () :: (h'.run calls).1, (h'.run calls).2) := by
          simp [Handle.run, Call.apply, hpoll]
        rw [hrun, hends]
        cases i with
        | zero => simp [Child.earlier]
        | succ i =>
          rw [List.getElem?_cons_succ, ih hopen]
          simp [Child.earlier]
      · have hrun : h.run (.poll :: calls) =
            ((if status.succeeded then .ok () else .error (.sketchFailed status)) ::
              calls.map fun _ => .ok (), h') := by
          simp [Handle.run, Call.apply, hpoll, hclosed.run]
        rw [hrun, hends]
        cases i with
        | zero =>
          cases hs : status.succeeded
          · simp [hs, eq_comm (a := error)]
          · simp [hs]
        | succ i =>
          rw [List.getElem?_cons_succ]
          constructor
          · intro herror
            have hmem := List.mem_of_getElem? herror
            simp at hmem
          · simp

/-! ## Every child -/

/-- How a child fares through a handle, by the calls on it. -/
structure ReapsOnce (child : Child) (calls : List Call) : Prop where
  answered : (run { child } calls).1.length = calls.length
  exits : ∀ i : Nat, calls[i]? = some .exit → (run { child } calls).1[i]? = some (.ok ())
  /-- The only error is that of the poll to which a child shows first that it has ended by itself,
  and failed. -/
  errors : ∀ (i : Nat) (error : PreviewError), (run { child } calls).1[i]? = some (.error error) ↔
    ∃ status, child.ends? = some (i, status) ∧ i < calls.length ∧
      (∀ call ∈ calls.take (i + 1), call = .poll) ∧ status.succeeded = false ∧
      error = .sketchFailed status
  /-- That poll is the call whose request shows first that the child is over. -/
  first : ∀ before call after error, calls = before ++ call :: after →
    (call.apply (run { child } before).2).1 = .error error →
      call = .poll ∧ (run { child } before).2.noticed = false ∧
        (call.apply (run { child } before).2).2.noticed = true
  /-- Behind an exit, or once the end has been seen, nothing is asked of the system any more, also
  not when the handle is given up. -/
  silent : ∀ before after, calls = before ++ after →
    (.exit ∈ before ∨ (run { child } before).2.noticed = true) →
      run (run { child } before).2 after =
        (after.map fun _ => .ok (), (run { child } before).2) ∧
      (run { child } before).2.drop = (run { child } before).2
  /-- What the requests have shown is how the child stands. -/
  reaped : ∀ before after, calls = before ++ after →
    (run { child } before).2.noticed = (run { child } before).2.child.isCollected
  /-- No signal is asked for, nor anything else, once a request has collected the status. -/
  unsignalled : (run { child } calls).2.drop.log.Pairwise fun _ earlier => earlier.collects = false
  /-- No child is left behind. -/
  dropped : (run { child } calls).2.drop.child.isCollected = true

section Every

variable {child : Child} (hchild : child.isCollected = false) (calls : List Call)

include hchild

theorem open_start : Open { child } where
  unfinished := rfl
  uncollected := hchild
  idle := by simp

theorem closed_drop : (run { child } calls).2.drop.Closed := by
  rcases (open_start hchild).run calls with hclosed | ⟨-, hopen⟩
  · rwa [hclosed.drop]
  · obtain ⟨h', hexit, hclosed⟩ := hopen.exit
    rwa [Handle.drop, hexit]

/-- A child fails at most one poll, is collected once, and gets no signal behind that. -/
theorem run_reapsOnce : ReapsOnce child calls where
  answered := length_run _ calls
  exits := by
    intro i hi
    have hlt : i < (run { child } calls).1.length := by
      rw [length_run]
      exact (List.getElem?_eq_some_iff.mp hi).1
    obtain ⟨answer, hanswer⟩ : ∃ answer, (run { child } calls).1[i]? = some answer :=
      ⟨_, List.getElem?_eq_getElem hlt⟩
    cases answer with
    | ok => exact hanswer
    | error e =>
      obtain ⟨status, -, -, hpolls, -⟩ := ((open_start hchild).error_iff calls i e).mp hanswer
      have hmem : Call.exit ∈ calls.take (i + 1) :=
        List.mem_of_getElem? (i := i) (by rw [List.getElem?_take_of_lt (Nat.lt_succ_self i), hi])
      exact absurd (hpolls .exit hmem) (by decide)
  errors := (open_start hchild).error_iff calls
  first := by
    intro before call after error hcalls herror
    rcases (open_start hchild).run before with hclosed | ⟨-, hopen⟩
    · rw [hclosed.apply] at herror
      simp at herror
    · cases call with
      | exit =>
        obtain ⟨h', hexit, -⟩ := hopen.exit
        simp [Call.apply, hexit] at herror
      | poll =>
        refine ⟨rfl, hopen.noticed_eq_false, ?_⟩
        rcases hopen.poll with ⟨h', hpoll, -⟩ | ⟨status, h', -, hclosed, hpoll⟩
        · simp [Call.apply, hpoll] at herror
        · rw [Call.apply, hpoll]
          exact hclosed.noticed
  silent := by
    intro before after hcalls hover
    have hclosed : (run { child } before).2.Closed := by
      rcases (open_start hchild).run before with hclosed | ⟨hexit, hopen⟩
      · exact hclosed
      · exfalso
        rcases hover with hover | hover
        · exact hexit hover
        · simp [hopen.noticed_eq_false] at hover
    exact ⟨hclosed.run after, hclosed.drop⟩
  reaped := by
    intro before after hcalls
    rcases (open_start hchild).run before with hclosed | ⟨-, hopen⟩
    · rw [hclosed.noticed, hclosed.collected]
    · rw [hopen.noticed_eq_false, hopen.uncollected]
  unsignalled := (closed_drop hchild calls).last
  dropped := (closed_drop hchild calls).collected

end Every

/-- A child outlives one poll and is gone then with a status of its own, out of reach of its group:
the second poll fails, and nothing behind it does anything. -/
theorem run_reapsOnce_second_poll :
    let child : Child := .running (some (1, .code 3)) false
    child.isCollected = false ∧ ReapsOnce child [.poll, .poll, .exit, .poll] ∧
      run { child } [.poll, .poll, .exit, .poll] =
        ([.ok (), .error (.sketchFailed (.code 3)), .ok (), .ok ()],
          ⟨.collected (.code 3), true, [.query true, .query false]⟩) :=
  ⟨rfl, run_reapsOnce rfl _, rfl⟩

/-- A child that its group does not reach is asked for, and then signalled alone. -/
example : (run { child := .running none false } [.poll, .exit, .poll]).2 =
    ⟨.collected (.signal killSignal), true, [.wait, .kill, .query false, .killGroup, .query false]⟩ :=
  rfl

end Handle

end Runner
end SketchPreview
