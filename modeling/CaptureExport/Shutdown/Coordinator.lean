import CaptureExport.Shutdown.Drain

/-! # The coordinator

The coordinator listens for a termination signal and then drains. Here it moves in single steps,
one for everything it can wait for: a signal, a try to take the lock, the deadline. What it finds
out about the lock is given to it, and so is the order of its steps.
-/

namespace CaptureExport

inductive Signal where
  | terminate
  | interrupt
  | hangup
  | quit
  deriving DecidableEq, Repr

namespace Signal

def name : Signal → String
  | terminate => "SIGTERM"
  | interrupt => "SIGINT"
  | hangup => "SIGHUP"
  | quit => "SIGQUIT"

def all : List Signal := [terminate, interrupt, hangup, quit]

def ofName? (s : String) : Option Signal := all.find? fun g => g.name = s

end Signal

/-- How far the coordinator has come. A stalled one waits for the deadline, as the lock cannot be
taken. -/
inductive Coordinator where
  | listening
  | draining
  | stalled
  | ended (outcome : DrainOutcome)
  | panicked (message : String)
  deriving DecidableEq, Repr

namespace Coordinator

structure Turn where
  coordinator : Coordinator
  trigger : Trigger
  logs : List Log.Record := []

def signalRecord (s : Signal) : Log.Record :=
  Event.signal.record .info Trigger.origin s!"signaled: {s.name}" [("signal", .text s.name)]

variable (lock : Path) (deadline : Duration)

def fire (outcome : DrainOutcome) (reason : CancelReason) (before : List Log.Record)
    (t : Trigger) : Turn :=
  let (_, t, more) := t.fire reason
  ⟨.ended outcome, t, before ++ more⟩

/-- A drain begins with a signal. It ends at once when the token is cancelled already. -/
def begin (now : Instant) (s : Signal) (t : Trigger) : Turn :=
  let t := t.beginDrain.2
  match Drain.deadlineAt? now deadline with
  | none => ⟨.panicked Instant.overflowMessage, t, [signalRecord s]⟩
  | some _ =>
    if t.cancelled then ⟨.ended .alreadyCancelled, t, [signalRecord s]⟩
    else ⟨.draining, t, [signalRecord s, Drain.waitingRecord lock]⟩

/-- A signal arrives. Only the first one is heard, unless the token is cancelled already. -/
def hear (now : Instant) (s : Signal) (c : Coordinator) (t : Trigger) : Turn :=
  match c with
  | .listening => if t.cancelled then ⟨c, t, []⟩ else begin lock deadline now s t
  | _ => ⟨c, t, []⟩

/-- A signal arrives together with cancellation and is heard all the same. -/
def hearLate (now : Instant) (s : Signal) (c : Coordinator) (t : Trigger) : Turn :=
  match c with
  | .listening => if t.cancelled then begin lock deadline now s t else ⟨c, t, []⟩
  | _ => ⟨c, t, []⟩

def poll (found : LockState) (c : Coordinator) (t : Trigger) : Turn :=
  match c with
  | .draining =>
    if t.cancelled then ⟨.ended .alreadyCancelled, t, []⟩
    else
      match found with
      | .lockable => fire .lockAcquired .lockAcquired [Drain.acquiredRecord lock] t
      | .failing e => ⟨.stalled, t, [Drain.failedRecord lock (.open lock e)]⟩
      | .held | .absent => ⟨c, t, []⟩
  | _ => ⟨c, t, []⟩

def expire (c : Coordinator) (t : Trigger) : Turn :=
  match c with
  | .draining =>
    if t.cancelled then ⟨.ended .alreadyCancelled, t, []⟩
    else
      fire .deadlineExpired .deadline [Drain.failedRecord lock (.timedOut lock deadline)] t
  | .stalled =>
    if t.cancelled then ⟨.ended .alreadyCancelled, t, []⟩
    else fire .deadlineExpired .deadline [] t
  | _ => ⟨c, t, []⟩

def cancelled : Coordinator → Coordinator
  | .draining | .stalled => .ended .alreadyCancelled
  | c => c

end Coordinator
end CaptureExport
