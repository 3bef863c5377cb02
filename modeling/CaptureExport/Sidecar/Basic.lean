import CaptureExport.Config.Basic
import CaptureExport.Export.Schedule
import CaptureExport.Memory.Relief
import CaptureExport.Shutdown.Coordinator
import CaptureExport.Watch.Watcher

/-! # The sidecar

One run of the exporter: a watcher, the exports it launches, memory relief and the coordinator of
the shutdown, which share the files, the trigger and the log.
-/

namespace CaptureExport

structure Sidecar where
  config : Config
  memory : MemoryRelief

namespace Sidecar

def ofConfig (c : Config) : Sidecar :=
  ⟨c, ⟨c.runtime.usagePath, MemoryRelief.dropCachesPath, c.interval⟩⟩

def pattern (x : Sidecar) : SegmentPattern := ⟨x.config.extensions⟩

def exporter (x : Sidecar) : Exporter :=
  ⟨⟨x.config.dstDir, x.config.retry⟩, ⟨x.config.compress, x.config.delete⟩⟩

def origin : String := "dd_pcap_fsnotify::sidecar"

def startRecord (x : Sidecar) : Log.Record :=
  let c := x.config
  Event.opening.record .info origin "starting PCAP export sidecar"
    [("src_dir", .shown c.srcDir.display), ("gcs_dir", .shown c.dstDir.display),
      ("ext", .shown (",".intercalate c.extensions)), ("gzip", .truth c.compress),
      ("delete", .truth c.delete), ("interval_secs", .nat (Duration.seconds c.interval)),
      ("retries_max", .nat c.retry.maxAttempts),
      ("retries_delay_secs", .nat (Duration.seconds c.retry.delay))]

/-- What everything in a run shares, with the state of each part. Every task that the watcher has
launched has its export. The holder is the node on which the companion holds its lock. -/
structure State extends Watcher where
  watch : Watch
  inbox : List Notice := []
  exports : List Job := []
  plan : Plan := []
  relief : TaskEnd := .returned
  coordinator : Coordinator := .listening
  holder : Option (Location × Node) := none

def reliefAt (x : Sidecar) (now : Instant) : TaskEnd :=
  match Instant.after? now x.memory.interval with
  | none => .panicked Instant.overflowMessage
  | some _ => .returned

/-- Starts a run, unless the source directory cannot be watched. -/
def start (x : Sidecar) (now : Instant) (plan : Plan) (holder : Option (Location × Node))
    (fs : FileSystem) : Except WatchError State × List Log.Record :=
  match Watch.register x.config.srcDir fs with
  | (.error e, logs) => (.error e, x.startRecord :: logs)
  | (.ok watch, logs) =>
    let logs := x.startRecord :: logs ++ [x.memory.startRecord]
    (.ok {
      files := fs, logs := logs, watch := watch, plan := plan, relief := x.reliefAt now
      holder := holder }, logs)

end Sidecar
end CaptureExport
