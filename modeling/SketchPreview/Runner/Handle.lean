import SketchPreview.Error

/-!
A sketch that runs in a child process.  The handle remembers that the child is over; the child is
over for the system only once somebody has collected its status, and until then it can be signalled.

A child may end by itself at any moment, also within a call.  Nobody notices but through a request
to the system, so its end is placed between two requests: each request lets the child `goOn` first.
-/

namespace SketchPreview
namespace Runner

/-- A child process as the system sees it.  A child that is not `grouped` has left the group that
was made for it, or cannot be reached through it for another reason. -/
inductive Child where
  /-- It runs.  If it ends by itself, it does so with a status, after so many more requests. -/
  | running (ends? : Option (Nat × Status) := none) (grouped : Bool := true)
  /-- It has ended, and nobody has collected the status. -/
  | ended (status : Status) (grouped : Bool := true)
  | collected (status : Status)
deriving DecidableEq

/-- The child at the next request. -/
def Child.goOn : Child → Child
  | .running (some (0, status)) grouped => .ended status grouped
  | .running (some (left + 1, status)) grouped => .running (some (left, status)) grouped
  | child => child

/-- What the system is asked to do. -/
inductive Action where
  /-- The signal to the child and all that it has started. -/
  | killGroup
  /-- The signal to the child alone. -/
  | kill
  /-- Asking for the status without waiting, and whether there was one to collect. -/
  | query (collected : Bool)
  | wait
deriving DecidableEq

structure Handle where
  child : Child
  finished : Bool := false
  /-- What the system has been asked to do, latest first. -/
  log : List Action := []
deriving DecidableEq

namespace Handle

/-- The signal that no process can ignore. -/
def killSignal : Nat := 9

def note (h : Handle) (a : Action) : Handle := { h with log := a :: h.log }

/-- Asks for the status of the child.  A status that is already collected is remembered. -/
def query (h : Handle) : Option Status × Handle :=
  match h.child.goOn with
  | .running ends? grouped => (none, { h with child := .running ends? grouped }.note (.query false))
  | .ended status _ => (some status, { h with child := .collected status }.note (.query true))
  | .collected status => (some status, h)

/-- Sends the signal to the group of the child, and says whether that was possible.  The name of a
child that is collected may by then be another's. -/
def killGroup (h : Handle) : Bool × Handle :=
  match h.child.goOn with
  | .running _ true => (true, { h with child := .ended (.signal killSignal) }.note .killGroup)
  | .ended status true => (true, { h with child := .ended status }.note .killGroup)
  | child => (false, { h with child }.note .killGroup)

/-- Sends the signal to the child alone, unless it is known to be over. -/
def killChild (h : Handle) : Handle :=
  match h.child.goOn with
  | .running _ grouped => { h with child := .ended (.signal killSignal) grouped }.note .kill
  | .ended status grouped => { h with child := .ended status grouped }.note .kill
  | .collected _ => h

/-- Ends the child and all that it has started.  Where the group cannot be signalled, a child that
has not ended either is signalled alone. -/
def kill (h : Handle) : Handle :=
  match h.killGroup with
  | (true, h) => h
  | (false, h) =>
    match h.query with
    | (some _, h) => h
    | (none, h) => h.killChild

/-- Waits for a child that has ended or been killed. -/
def wait (h : Handle) : Handle :=
  match h.child.goOn with
  | .running ends? grouped => { h with child := .running ends? grouped }.note .wait
  | .ended status _ => { h with child := .collected status }.note .wait
  | .collected _ => h

/-- Reports a child that has failed by itself, once. -/
def poll (h : Handle) : Except PreviewError Unit × Handle :=
  if h.finished then (.ok (), h)
  else
    match h.query with
    | (none, h) => (.ok (), h)
    | (some status, h) =>
      let h := { h with finished := true }
      if status.succeeded then (.ok (), h) else (.error (.sketchFailed status), h)

/-- Ends the child.  That is no error for one that has ended already. -/
def exit (h : Handle) : Except PreviewError Unit × Handle :=
  if h.finished then (.ok (), h)
  else (.ok (), { h.kill.wait with finished := true })

/-- Gives the handle up, and the child with it. -/
def drop (h : Handle) : Handle := h.exit.2

end Handle
end Runner
end SketchPreview
