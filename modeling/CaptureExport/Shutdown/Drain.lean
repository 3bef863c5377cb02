import CaptureExport.Shutdown.Lifecycle
import CaptureExport.Shutdown.Lock

/-! # Draining

After a termination signal the watcher is cancelled as soon as the lock file can be locked, and
at the latest at a deadline.
-/

namespace CaptureExport

inductive DrainOutcome where
  | lockAcquired
  | deadlineExpired
  | alreadyCancelled
  deriving DecidableEq, Repr

namespace DrainOutcome

def name : DrainOutcome → String
  | lockAcquired => "LockAcquired"
  | deadlineExpired => "DeadlineExpired"
  | alreadyCancelled => "AlreadyCancelled"

end DrainOutcome

/-- The end of a drain: its outcome, the time it took, the trigger and the lines. -/
structure DrainRun where
  outcome : DrainOutcome
  elapsed : Duration
  trigger : Trigger
  logs : List Log.Record

namespace Drain

def record (level : Log.Level) (lock : Path) (fields : List (String × Log.Value))
    (message : String) : Log.Record :=
  Event.lock.record level Trigger.origin message (("lock", .shown lock.display) :: fields)

def waitingRecord (lock : Path) : Log.Record :=
  record .info lock [] s!"waiting for PCAP lock file: {lock.display}"

def acquiredRecord (lock : Path) : Log.Record :=
  record .info lock [] s!"acquired PCAP lock file: {lock.display}"

def failedRecord (lock : Path) (e : LockError) : Log.Record :=
  record .warn lock [("error", .shown e.message)]
    s!"failed to acquire PCAP lock file: {lock.display}"

/-- When the shared token is cancelled by somebody else, and why. -/
abbrev Interruption := Option (Duration × CancelReason)

def interrupted (t : Trigger) (cut : Interruption) : Trigger × List Log.Record :=
  match cut with
  | some (_, reason) => (t.fire reason).2
  | none => (t, [])

def fired (outcome : DrainOutcome) (reason : CancelReason) (elapsed : Duration) (t : Trigger)
    (logs : List Log.Record) : DrainRun :=
  let (_, t, more) := t.fire reason
  ⟨outcome, elapsed, t, logs ++ more⟩

/-- Drains with a deadline. Times are counted from the call; `cut` is when somebody else fires
the trigger. A lock that cannot be taken does not bring cancellation forward. -/
def run (trigger : Trigger) (lock : Path) (deadline : Duration) (history : LockHistory)
    (cut : Interruption) : DrainRun :=
  let t := trigger.beginDrain.2
  if t.cancelled then ⟨.alreadyCancelled, 0, t, []⟩
  else if cut.any fun c => c.1 = 0 then
    let (t, logs) := interrupted t cut
    ⟨.alreadyCancelled, 0, t, logs⟩
  else
    let logs := [waitingRecord lock]
    match Lock.acquire lock history deadline (cut.map Prod.fst) with
    | (.ok (), at') => fired .lockAcquired .lockAcquired at' t (logs ++ [acquiredRecord lock])
    | (.error (.cancelled _), at') =>
      let (t, more) := interrupted t cut
      ⟨.alreadyCancelled, at', t, logs ++ more⟩
    | (.error e, _) =>
      let logs := logs ++ [failedRecord lock e]
      match cut with
      | some (c, _) =>
        if c < deadline then
          let (t, more) := interrupted t cut
          ⟨.alreadyCancelled, c, t, logs ++ more⟩
        else fired .deadlineExpired .deadline deadline t logs
      | none => fired .deadlineExpired .deadline deadline t logs

/-- The instant at which a drain that begins now has to end, when it can be held. -/
def deadlineAt? (now : Instant) (deadline : Duration) : Option Instant :=
  Instant.after? now deadline

end Drain
end CaptureExport
