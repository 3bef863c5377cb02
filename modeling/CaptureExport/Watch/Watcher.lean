import CaptureExport.Rotation.Dispatch
import CaptureExport.Shutdown.Lifecycle
import CaptureExport.Watch.Registration

/-! # The watcher

The watcher takes notices one by one until the shared token is cancelled. Of each it handles all
arrivals: the sentinel is removed and fires the trigger, every other path is dispatched.
-/

namespace CaptureExport

/-- What the watcher acts on: the files, the tracker and the trigger, with the paths handled, the
tasks launched and the lines written so far. -/
structure Watcher where
  files : FileSystem
  tracker : Tracker := {}
  trigger : Trigger := {}
  handled : List Path := []
  tasks : List ExportTask := []
  logs : List Log.Record := []

namespace Watcher

def sentinelRecord (path : Path) : Log.Record :=
  Event.signal.record .info Watch.origin "detected 'tcpdumpw' termination signal"
    [("source", .shown path.display)]

def unremovedRecord (path : Path) (cause : IoError) : Log.Record :=
  Event.failure.record .warn Watch.origin "failed to remove termination sentinel"
    [("source", .shown path.display), ("error", .shown cause.message)]

def failureRecord (message : String) : Log.Record :=
  Event.failure.record .error Watch.origin s!"PCAP filesystem watcher error: {message}"
    [("error", .shown message)]

/-- Removes the sentinel, if possible, and fires the trigger. -/
def takeSentinel (path : Path) (w : Watcher) : Watcher :=
  let (files, unremoved) :=
    match w.files.unlink path with
    | .ok fs => (fs, [])
    | .error e => (w.files, [unremovedRecord path e])
  let (_, trigger, cancelling) := w.trigger.fire .sentinel
  { w with
    files := files
    trigger := trigger
    logs := w.logs ++ sentinelRecord path :: unremoved ++ cancelling }

def dispatch (pattern : SegmentPattern) (path : Path) (w : Watcher) : Watcher :=
  let o := Dispatch.alone pattern path w.tracker
  { w with
    tracker := o.tracker
    tasks := w.tasks ++ o.task.toList
    logs := w.logs ++ o.logs }

def arrive (pattern : SegmentPattern) (w : Watcher) (path : Path) : Watcher :=
  let w := { w with handled := w.handled ++ [path] }
  if path.isSentinel then w.takeSentinel path else w.dispatch pattern path

def handle (pattern : SegmentPattern) (w : Watcher) (notice : Notice) : Watcher :=
  match notice with
  | .failure message => { w with logs := w.logs ++ [failureRecord message] }
  | .change _ _ => notice.arrivals.foldl (arrive pattern) w

/-- Takes notices in order until cancelled. -/
def run (pattern : SegmentPattern) : List Notice → Watcher → Watcher
  | [], w => w
  | n :: ns, w => if w.trigger.cancelled then w else run pattern ns (w.handle pattern n)

end Watcher
end CaptureExport
