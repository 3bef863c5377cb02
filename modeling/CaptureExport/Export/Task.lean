import CaptureExport.Export.Move
import CaptureExport.Segment.Key

/-! # Export tasks

A task exports one segment: one that was superseded while the watcher runs, with the configured
options, or one that is left at shutdown, plainly and in place. Its move is framed by lines of its
own. A terminal task is refused as long as the watcher is active.
-/

namespace CaptureExport

inductive Purpose where
  | streaming (iteration : Nat)
  | terminal
  deriving DecidableEq, Repr

structure ExportTask where
  source : Path
  key : StreamKey
  purpose : Purpose
  deriving DecidableEq, Repr

namespace ExportTask

def isTerminal (t : ExportTask) : Bool := t.purpose = .terminal

def iteration (t : ExportTask) : Nat :=
  match t.purpose with
  | .streaming n => n
  | .terminal => 0

def event (t : ExportTask) : Event := if t.isTerminal then .closing else .exporting

def origin : String := "dd_pcap_fsnotify::export"

def words (t : ExportTask) : String × String × String :=
  if t.isTerminal then ("flushing", "flushed", "flush") else ("exporting", "exported", "export")

def streamFields (key : StreamKey) (iteration : Nat) : List (String × Log.Value) :=
  [("key", .shown key.display), ("ext", .text key.extension), ("iface", .shown key.interface),
    ("iteration", .nat iteration)]

def startRecord (t : ExportTask) : Log.Record :=
  t.event.record .info origin s!"{t.words.1} PCAP file: {t.source.display}"
    (("source", .shown t.source.display) :: streamFields t.key t.iteration)

def endRecord (t : ExportTask) : Except MoveError MoveReport → Log.Record
  | .ok r =>
    t.event.record .info origin s!"{t.words.2.1} PCAP file: {r.target.display}"
      ([("source", .shown t.source.display), ("target", .shown r.target.display),
        ("bytes", .nat r.bytes)] ++ streamFields t.key t.iteration)
  | .error e =>
    t.event.record .error origin s!"failed to {t.words.2.2} PCAP file: {t.source.display}"
      (("source", .shown t.source.display) :: streamFields t.key t.iteration ++
        [("error", .shown e.message)])

def refusalRecord (t : ExportTask) : Log.Record :=
  Event.failure.record .error origin
    s!"refusing to flush while the watcher is active: {t.source.display}"
    [("source", .shown t.source.display), ("key", .shown t.key.display)]

end ExportTask

structure Exporter where
  mover : Mover
  streaming : MoveOptions := {}
  deriving DecidableEq, Repr

namespace Exporter

/-- The options of a task; a terminal one neither compresses nor deletes. -/
def optionsFor (x : Exporter) (t : ExportTask) : MoveOptions :=
  if t.isTerminal then {} else x.streaming

end Exporter
end CaptureExport
