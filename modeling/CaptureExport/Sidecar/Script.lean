import CaptureExport.Sidecar.Finish

/-! # Scripted runs

A script says what happens outside. Between its commands the sidecar comes to rest: it handles
everything that has queued up, and only a drain may still be waiting for its lock.
-/

namespace CaptureExport.Sidecar

/-- A command of a script: files change, the sidecar comes to rest, or a signal arrives when it
has. -/
inductive Command where
  | change (step : FileSystem.Step)
  | rest
  | signal (s : Signal)
  deriving DecidableEq, Repr

variable (x : Sidecar)

def takeNotices : Nat → State → State
  | 0, s => s
  | n + 1, s => takeNotices n (x.takeNotice s)

/-- Lets everything happen that can happen without time and without the outside. -/
def settle (s : State) : State := x.poll (x.join (x.takeNotices s.inbox.length s))

def perform (now : Instant) (s : State) : Command → State
  | .change c => change c s
  | .rest => x.settle s
  | .signal g => x.poll (x.signal now g (x.settle s))

/-- A whole run: a script, the time that a drain still takes, and the end; nothing when the sidecar
goes on. -/
def run (now : Instant) (script : List Command) (s : State) : Option Ending :=
  let s := x.expire (x.settle (script.foldl (x.perform now) s))
  if s.trigger.cancelled then some (x.finish s) else none

end CaptureExport.Sidecar
