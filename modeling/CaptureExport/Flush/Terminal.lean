import CaptureExport.Export.Schedule
import CaptureExport.Flush.Scan

/-! # The terminal flush

Once the watcher is gone, every pending segment is exported as it is. Scan and exports share one
budget; when it runs out, or the flush is cancelled, exports that wait for another attempt are
cancelled and not counted.
-/

namespace CaptureExport

/-- What a flush reports. -/
structure FlushSummary where
  submitted : Nat := 0
  flushed : Nat := 0
  failed : Nat := 0
  timedOut : Bool := false
  latency : Duration := 0
  deriving DecidableEq, Repr

/-- The end of a flush, when all its exports have ended too. -/
structure FlushRun where
  summary : FlushSummary
  files : FileSystem
  plan : Plan
  logs : List Log.Record

namespace Flush

def defaultTimeout : Duration := Duration.ofSeconds 5

/-- The surroundings of a flush: the exporter, whether the watcher is still active, the budget,
the time at which the scan completes, if it ever does, and the time of a cancellation. -/
structure Setting where
  src : Path
  pattern : SegmentPattern
  exporter : Exporter
  active : Bool
  timeout : Duration := defaultTimeout
  scanned : Option Duration := some 0
  cancel : Option Duration := none

namespace Setting

def stop (s : Setting) : Duration :=
  match s.cancel with
  | some c => min c s.timeout
  | none => s.timeout

def expires (s : Setting) : Bool :=
  match s.cancel with
  | some c => s.timeout ≤ c
  | none => true

end Setting

def timeoutField (s : Setting) : String × Log.Value :=
  ("timeout_ms", .nat (Duration.millis s.timeout))

def stoppedRecord (s : Setting) : Log.Record :=
  Event.failure.record .warn origin "PCAP flush stopped before the scan completed" [timeoutField s]

def waitingRecord (submitted : Nat) : Log.Record :=
  Event.closing.record .info origin s!"waiting for {submitted} PCAP files to be flushed"
    [("files", .nat submitted)]

def timedOutRecord (s : Setting) : Log.Record :=
  Event.failure.record .warn origin "PCAP flush timed out" [timeoutField s]

def finishedRecord (summary : FlushSummary) : Log.Record :=
  Event.closing.record .info origin s!"flushed {summary.flushed} PCAP files"
    [("files", .nat summary.flushed), ("failed", .nat summary.failed),
      ("latency_ms", .nat (Duration.millis summary.latency))]

/-- A job that ended before a time, with success or not. -/
def endedBefore (stop : Duration) (success : Bool) (j : Job) : Bool :=
  match j.result? with
  | some r => r.isOk == success && j.time < stop
  | none => false

def summarize (stop began : Duration) (jobs : List Job) : FlushSummary :=
  let late := jobs.any fun j => stop ≤ j.time
  { submitted := jobs.length
    flushed := (jobs.filter (endedBefore stop true)).length
    failed := (jobs.filter (endedBefore stop false)).length
    timedOut := late
    latency := if late then stop else (jobs.map Job.time).foldl max began }

/-- Runs a flush. Times are counted from its start. -/
def run (s : Setting) (plan : Plan) (fs : FileSystem) : FlushRun :=
  let stopped : FlushRun :=
    let summary : FlushSummary := { timedOut := true, latency := s.stop }
    ⟨summary, fs, plan, [stoppedRecord s, finishedRecord summary]⟩
  match s.scanned with
  | none => stopped
  | some began =>
    if s.stop ≤ began then stopped
    else
      let (tasks, lines) := pending fs s.src s.pattern s.exporter.mover
      let done := s.exporter.runAll s.active tasks began plan (some s.stop) fs
      let summary := summarize s.stop began done.jobs
      ⟨summary, done.files, done.plan,
        lines ++ waitingRecord tasks.length :: done.logs ++
          (if summary.timedOut ∧ s.expires then [timedOutRecord s] else []) ++
          [finishedRecord summary]⟩

/-- A flush that begins at an instant. It panics before it does anything when its budget ends at
no instant. -/
def call (now : Instant) (s : Setting) (plan : Plan) (fs : FileSystem) : Except String FlushRun :=
  match Instant.after? now s.timeout with
  | none => .error Instant.overflowMessage
  | some _ => .ok (run s plan fs)

end Flush
end CaptureExport
