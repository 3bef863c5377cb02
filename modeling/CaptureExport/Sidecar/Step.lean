import CaptureExport.Sidecar.Basic

/-! # Steps of a run

Everything that can happen in a run is one of a few occurrences, inside the sidecar or outside.
They come in any order: a run is a list of them.
-/

namespace CaptureExport.Sidecar

/-- What can happen in a run. Files change, signals arrive and the deadline ends from outside; a
late signal is ready together with cancellation. -/
inductive Occurrence where
  | change (step : FileSystem.Step)
  | signal (s : Signal)
  | lateSignal (s : Signal)
  | deadline
  | notice
  | exportStep (index : Nat)
  | tick
  | poll
  deriving DecidableEq, Repr

variable (x : Sidecar)

def schedule (s : State) : Schedule where
  mover := x.exporter.mover
  active := s.trigger.isActive
  reachable := false
  jobs := s.exports
  files := s.files
  plan := s.plan
  cancel := if s.trigger.cancelled then some 0 else none
  logs := []

def State.withSchedule (s : State) (d : Schedule) : State :=
  { s with files := d.files, exports := d.jobs, plan := d.plan, logs := s.logs ++ d.logs }

/-- Somebody changes files; what the watch reports of it queues up. -/
def change (step : FileSystem.Step) (s : State) : State :=
  let (notices, watch) := s.watch.observe s.files step
  { s with files := s.files.after step, watch := watch, inbox := s.inbox ++ notices }

/-- The watcher takes the next notice, unless the token is cancelled. Every task it launches
becomes an export. -/
def takeNotice (s : State) : State :=
  match s.inbox with
  | [] => s
  | n :: rest =>
    if s.trigger.cancelled then s
    else
      let w := s.toWatcher.handle x.pattern n
      let launched := w.tasks.drop s.tasks.length
      { s with
        toWatcher := w
        inbox := rest
        exports := s.exports ++ launched.map fun t => .ofTask x.exporter t 0 }

def exportStep (index : Nat) (s : State) : State :=
  match s.exports[index]? with
  | none => s
  | some j =>
    if j.result?.isSome then s
    else
      let d := x.schedule s
      s.withSchedule (d.stepJob index (j.dueAt d.mover.retry.delay d.cancel) j)

def tick (s : State) : State :=
  if s.trigger.cancelled ∨ s.relief ≠ .returned then s
  else
    let (relief, files, logs) := x.memory.cycles 1 s.files
    { s with relief := relief, files := files, logs := s.logs ++ logs }

def State.withTurn (s : State) (t : Coordinator.Turn) : State :=
  { s with coordinator := t.coordinator, trigger := t.trigger, logs := s.logs ++ t.logs }

def signal (now : Instant) (g : Signal) (s : State) : State :=
  s.withTurn (s.coordinator.hear x.config.lockFile x.config.drainDeadline now g s.trigger)

def lateSignal (now : Instant) (g : Signal) (s : State) : State :=
  s.withTurn (s.coordinator.hearLate x.config.lockFile x.config.drainDeadline now g s.trigger)

def poll (s : State) : State :=
  let lock := x.config.lockFile
  s.withTurn (s.coordinator.poll lock (LockScene.state ⟨s.files, s.holder⟩ lock) s.trigger)

def expire (s : State) : State :=
  s.withTurn (s.coordinator.expire x.config.lockFile x.config.drainDeadline s.trigger)

def step (now : Instant) (s : State) : Occurrence → State
  | .change c => change c s
  | .signal g => x.signal now g s
  | .lateSignal g => x.lateSignal now g s
  | .deadline => x.expire s
  | .notice => x.takeNotice s
  | .exportStep i => x.exportStep i s
  | .tick => x.tick s
  | .poll => x.poll s

def steps (now : Instant) (s : State) (os : List Occurrence) : State := os.foldl (x.step now) s

end CaptureExport.Sidecar
