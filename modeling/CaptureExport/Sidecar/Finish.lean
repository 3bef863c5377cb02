import CaptureExport.Flush.Terminal
import CaptureExport.Sidecar.Step

/-! # The end of a run

Once the token is cancelled the watch is removed, the exports under way are awaited, and all that
is left in the source directory is flushed.
-/

namespace CaptureExport.Sidecar

/-- The end of a run. -/
structure Ending where
  summary : FlushSummary
  trigger : Trigger
  files : FileSystem
  logs : List Log.Record

def inFlightRecord (n : Nat) : List Log.Record :=
  if n = 0 then []
  else [Event.closing.record .info origin "waiting for in-flight PCAP exports" [("tasks", .nat n)]]

def unexpectedRecord (state : LifecycleState) : Log.Record :=
  Event.failure.record .warn origin "unexpected shutdown state" [("state", .shown state.name)]

def reliefRecord : TaskEnd → Log.Record
  | .returned => MemoryRelief.stopRecord
  | .panicked m =>
    Event.failure.record .warn origin "memory relief task failed"
      [("error", .shown (TaskEnd.panicText m))]

def coordinatorRecord : Coordinator → List Log.Record
  | .ended outcome =>
    [Event.signal.record .info origin s!"drain finished: {outcome.name}"
      [("outcome", .shown outcome.name)]]
  | .panicked m =>
    [Event.failure.record .warn origin "shutdown coordinator task failed"
      [("error", .shown (TaskEnd.panicText m))]]
  | _ => []

def endRecord (handled : Nat) (summary : FlushSummary) : Log.Record :=
  Event.closing.record .info origin "PCAP export sidecar terminated"
    [("events", .nat handled), ("files", .nat summary.flushed),
      ("latency_ms", .nat (Duration.millis summary.latency))]

variable (x : Sidecar)

def join (s : State) : State := s.withSchedule (x.schedule s).run

def State.inFlight (s : State) : Nat := s.exports.countP fun j => j.result?.isNone

def flush (s : State) : FlushRun :=
  Flush.run {
    src := x.config.srcDir, pattern := x.pattern, exporter := x.exporter
    active := s.trigger.isActive } s.plan s.files

def finish (s : State) : Ending :=
  let s := { s with logs := s.logs ++ s.watch.stop ++ inFlightRecord s.inFlight }
  let s := x.join s
  let f := x.flush s
  let (moved, trigger) := s.trigger.transition .draining .terminated
  let unexpected := if moved then [] else [unexpectedRecord trigger.state]
  { summary := f.summary
    trigger := trigger
    files := f.files
    logs := s.logs ++ f.logs ++ unexpected ++ reliefRecord s.relief ::
      coordinatorRecord s.coordinator.cancelled ++ [endRecord s.handled.length f.summary] }

end CaptureExport.Sidecar
