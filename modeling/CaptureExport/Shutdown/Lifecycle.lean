import CaptureExport.Event

/-! # The lifecycle and its trigger

A run is active, then draining, then terminated. The trigger cancels the watcher; whoever fires
it first does so, and everybody who fires it makes the run leave the active state.
-/

namespace CaptureExport

inductive LifecycleState where
  | active
  | draining
  | terminated
  deriving DecidableEq, Repr, Inhabited

namespace LifecycleState

def name : LifecycleState → String
  | active => "active"
  | draining => "draining"
  | terminated => "terminated"

def canMoveTo : LifecycleState → LifecycleState → Bool
  | active, draining => true
  | draining, terminated => true
  | _, _ => false

end LifecycleState

inductive CancelReason where
  | sentinel
  | lockAcquired
  | deadline
  | watcherClosed
  deriving DecidableEq, Repr, Inhabited

namespace CancelReason

def all : List CancelReason := [sentinel, lockAcquired, deadline, watcherClosed]

def name : CancelReason → String
  | sentinel => "sentinel"
  | lockAcquired => "lock acquired"
  | deadline => "deadline"
  | watcherClosed => "watcher closed"

end CancelReason

/-- The state of the run, whether the trigger has been fired, and whether the shared token has
been cancelled. -/
structure Trigger where
  state : LifecycleState := .active
  fired : Bool := false
  cancelled : Bool := false
  deriving DecidableEq, Repr, Inhabited

namespace Trigger

def origin : String := "dd_pcap_fsnotify::shutdown"

def isActive (t : Trigger) : Bool := t.state = .active

def transition (a b : LifecycleState) (t : Trigger) : Bool × Trigger :=
  if a.canMoveTo b ∧ t.state = a then (true, { t with state := b }) else (false, t)

def beginDrain (t : Trigger) : Bool × Trigger := t.transition .active .draining

/-- Sets the flag of the single fire, and says whether it was set before. -/
def claim (t : Trigger) : Bool × Trigger := (t.fired, { t with fired := true })

def cancel (t : Trigger) : Trigger := { t with cancelled := true }

def fireRecord (reason : CancelReason) : Log.Record :=
  Event.signal.record .info origin s!"cancelling PCAP watcher: {reason.name}"
    [("reason", .shown reason.name)]

/-- Leaves the active state, and cancels the shared token unless somebody else has fired. -/
def fire (reason : CancelReason) (t : Trigger) : Bool × Trigger × List Log.Record :=
  let t := t.beginDrain.2
  let (before, t) := t.claim
  if before then (false, t, []) else (true, t.cancel, [fireRecord reason])

end Trigger
end CaptureExport
