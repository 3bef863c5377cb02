import CaptureExport.Clock.Basic
import CaptureExport.Event
import CaptureExport.FileSystem.Operations
import CaptureExport.Text.Blank
import CaptureExport.Text.Number
import CaptureExport.Word

/-! # Memory relief

Written segments stay in the page cache, which counts against the memory of the control group.
At every tick the kernel is asked to drop its caches, and the memory in use is logged before and
after. Nothing that goes wrong ends the loop.
-/

namespace CaptureExport

structure Relief where
  before : Nat
  after : Nat
  deriving DecidableEq, Repr

namespace Relief

def signed (n : Nat) : Int :=
  let bits := n % Word.limit64
  if bits < Word.limit63 then bits else bits - Word.limit64

def difference (r : Relief) : Int := signed r.before - signed r.after

/-- The octets released, unless the difference leaves the range of signed words. -/
def released? (r : Relief) : Option Int :=
  if -Word.limit63 ≤ r.difference ∧ r.difference < Word.limit63 then some r.difference else none

def overflowMessage : String := "attempt to subtract with overflow"

end Relief

inductive MemoryError where
  | read (path : Path) (cause : IoError)
  | invalid (path : Path) (raw : String)
  | drop (path : Path) (cause : IoError)
  deriving DecidableEq, Repr

namespace MemoryError

def message : MemoryError → String
  | read p e => s!"failed to read memory usage from {p.display}: {e.message}"
  | invalid p raw => s!"invalid memory usage in {p.display}: '" ++ raw ++ "'"
  | drop p e => s!"failed to drop caches through {p.display}: {e.message}"

end MemoryError

/-- The files of the memory counter and of the request to drop caches, and the time between
cycles. -/
structure MemoryRelief where
  usagePath : Path
  dropPath : Path
  interval : Duration
  deriving DecidableEq, Repr

namespace MemoryRelief

def origin : String := "dd_pcap_fsnotify::memory"

def dropCachesPath : Path := Path.ofString "/proc/sys/vm/drop_caches"

def request : Bytes := Utf8.ofString "3\n"

variable (m : MemoryRelief)

def usage (fs : FileSystem) : Except MemoryError Nat :=
  match fs.readFile m.usagePath with
  | .error e => .error (.read m.usagePath e)
  | .ok content =>
    match Utf8.decode? content with
    | none => .error (.read m.usagePath .illFormedText)
    | some chars =>
      match Text.word? (Text.trim chars) with
      | some n => .ok n
      | none => .error (.invalid m.usagePath (String.ofList (Text.trim chars)))

def dropCaches (fs : FileSystem) : Except MemoryError FileSystem :=
  match fs.overwrite m.dropPath request with
  | .ok fs => .ok fs
  | .error e => .error (.drop m.dropPath e)

def record (level : Log.Level) (message : String) (fields : List (String × Log.Value)) :
    Log.Record :=
  Event.memory.record level origin message fields

def sample (phase : String) (fs : FileSystem) : Nat × List Log.Record :=
  match m.usage fs with
  | .ok n => (n, [])
  | .error e =>
    (0, [record .warn "failed to read memory usage"
      [("phase", .text phase), ("error", .shown e.message)]])

def opening (fs : FileSystem) : Option Nat × FileSystem × List Log.Record :=
  let before := m.sample "before" fs
  match m.dropCaches fs with
  | .error e =>
    (none, fs, before.2 ++
      [record .warn "failed to flush OS file write buffers" [("error", .shown e.message)]])
  | .ok fs => (some before.1, fs, before.2)

def closing (before : Nat) (fs : FileSystem) : Relief × List Log.Record :=
  let after := m.sample "after" fs
  (⟨before, after.1⟩, after.2)

def tick (fs : FileSystem) : Option Relief × FileSystem × List Log.Record :=
  match m.opening fs with
  | (none, fs, logs) => (none, fs, logs)
  | (some before, fs, logs) =>
    let (r, more) := m.closing before fs
    (some r, fs, logs ++ more)

def reliefRecord (r : Relief) (released : Int) : Log.Record :=
  record .info s!"flushed OS file write buffers: {r.before} -> {r.after} bytes"
    [("before", .nat r.before), ("after", .nat r.after), ("released", .int released)]

/-- What a relief leads to: a line, unless the difference cannot be told. -/
def report (r : Relief) : TaskEnd × List Log.Record :=
  match r.released? with
  | none => (.panicked Relief.overflowMessage, [])
  | some released => (.returned, [reliefRecord r released])

def cycles : Nat → FileSystem → TaskEnd × FileSystem × List Log.Record
  | 0, fs => (.returned, fs, [])
  | n + 1, fs =>
    match m.tick fs with
    | (none, fs, logs) =>
      let (done, fs, more) := cycles n fs
      (done, fs, logs ++ more)
    | (some r, fs, logs) =>
      match report r with
      | (.panicked e, _) => (.panicked e, fs, logs)
      | (.returned, line) =>
        let (done, fs, more) := cycles n fs
        (done, fs, logs ++ line ++ more)

def startRecord : Log.Record :=
  record .debug "starting memory relief"
    [("path", .shown m.usagePath.display), ("interval_secs", .nat (Duration.seconds m.interval))]

def stopRecord : Log.Record := record .debug "memory relief stopped" []

/-- The number of ticks strictly before a time after the start. -/
def ticksBefore (c : Duration) : Nat := (c - 1) / m.interval

/-- The loop from an instant on, cancelled a time after its start. -/
def run (now : Instant) (cancelAfter : Duration) (fs : FileSystem) :
    TaskEnd × FileSystem × List Log.Record :=
  match Instant.after? now m.interval with
  | none => (.panicked Instant.overflowMessage, fs, [m.startRecord])
  | some _ =>
    match m.cycles (m.ticksBefore cancelAfter) fs with
    | (.returned, fs, logs) => (.returned, fs, m.startRecord :: logs ++ [stopRecord])
    | (.panicked e, fs, logs) => (.panicked e, fs, m.startRecord :: logs)

end MemoryRelief
end CaptureExport
