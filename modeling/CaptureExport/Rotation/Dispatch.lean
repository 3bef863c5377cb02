import CaptureExport.Export.Task
import CaptureExport.Rotation.Tracker
import CaptureExport.Segment.Pattern

/-! # Dispatch

The creation of a segment makes its predecessor an export task. The task is launched before the
active segment is advanced; when another dispatch has advanced it in between, the predecessor is
reported as leaked.
-/

namespace CaptureExport

inductive Dispatch where
  | ignored
  | recorded
  | orphaned
  | exporting (previous : Path) (leaked : Bool)
  deriving DecidableEq, Repr

namespace Dispatch

def origin : String := "dd_pcap_fsnotify::dispatcher"

structure Outcome where
  dispatch : Dispatch
  tracker : Tracker
  task : Option ExportTask
  logs : List Log.Record

def record (event : Event) (level : Log.Level) (path : Path) (key : StreamKey) (iteration : Nat)
    (message : String) : Log.Record :=
  event.record level origin message
    (("source", .shown path.display) :: ExportTask.streamFields key iteration)

def detectedRecord (path : Path) (key : StreamKey) (iteration : Nat) : Log.Record :=
  record .creation .info path key iteration s!"new PCAP file detected: {path.display}"

def queuedRecord (path : Path) (key : StreamKey) (iteration : Nat) : Log.Record :=
  record .queueing .info path key iteration s!"queued PCAP file: {path.display}"

def orphanedRecord (path : Path) (key : StreamKey) (iteration : Nat) : Log.Record :=
  record .failure .error path key iteration s!"PCAP file [{key.display}] unavailable"

def leakedRecord (previous path : Path) (key : StreamKey) (iteration : Nat) : Log.Record :=
  Event.failure.record .error origin s!"leaked PCAP file: {previous.display}"
    ([("source", .shown previous.display), ("target", .shown path.display)] ++
      ExportTask.streamFields key iteration)

/-- Dispatches a path; `meanwhile` is what others do to the tracker between the two accesses. -/
def run (pattern : SegmentPattern) (meanwhile : Tracker → Tracker) (path : Path)
    (tracker : Tracker) : Outcome :=
  match pattern.key? path with
  | none => ⟨.ignored, tracker, none, []⟩
  | some key =>
    let (rotation, tracker) := tracker.observe key path
    let tracker := meanwhile tracker
    let detected := detectedRecord path key rotation.iteration
    match rotation with
    | .first => ⟨.recorded, tracker, none, [detected, queuedRecord path key 1]⟩
    | .orphaned n => ⟨.orphaned, tracker, none, [detected, orphanedRecord path key n]⟩
    | .superseded previous n =>
      let (expected, tracker) := tracker.advance key previous path
      let leaked := if expected then [] else [leakedRecord previous path key n]
      ⟨.exporting previous (!expected), tracker, some ⟨previous, key, .streaming n⟩,
        detected :: leaked ++ [queuedRecord path key n]⟩

def alone (pattern : SegmentPattern) (path : Path) (tracker : Tracker) : Outcome :=
  run pattern id path tracker

def all (pattern : SegmentPattern) : List Path → Tracker →
    List Dispatch × Tracker × List ExportTask × List Log.Record
  | [], tracker => ([], tracker, [], [])
  | p :: ps, tracker =>
    let o := alone pattern p tracker
    let (ds, tracker, tasks, logs) := all pattern ps o.tracker
    (o.dispatch :: ds, tracker, o.task.toList ++ tasks, o.logs ++ logs)

end Dispatch
end CaptureExport
