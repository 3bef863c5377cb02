import CaptureExport.Clock.Timestamp
import CaptureExport.FileSystem.Image
import CaptureExport.Program
import Std.Async.Signal
import Std.Time.DateTime.Timestamp

/-! # The command line

The outer layer: it takes the files as they are into an image, lets the sidecar act on the image,
and stores what has changed. New names in the source directory are what the watch notices.
-/

namespace CaptureExport.CommandLine

def emit (l : Log.Logger) (records : List Log.Record) : IO Unit := do
  let out ← IO.getStdout
  for r in records.filter l.enabled do
    let now ← Std.Time.Timestamp.now
    let time : Timestamp := now.toNanosecondsSinceUnixEpoch.val.toNat
    out.putStr (String.ofList (l.line time.text r))
  out.flush

/-- Adds an entry of a directory to an image, with everything below it. Files are taken without
their contents unless these are asked for; what cannot be read is left out. -/
partial def takeEntry (contents : Bool) (parent : Location) (fs : FileSystem)
    (e : IO.FS.DirEntry) : IO FileSystem := do
  let loc := Utf8.ofString e.fileName :: parent
  try
    match (← e.path.symlinkMetadata).type with
    | .dir => (← e.path.readDir).foldlM (takeEntry contents loc) (fs.withDirectory loc)
    | .file =>
      let octets ← if contents then IO.FS.readBinFile e.path else pure .empty
      return fs.withFile loc octets.toList
    | .symlink =>
      let real ← IO.FS.realPath e.path
      let target := Path.ofString real.toString
      let fs := fs.withLink loc target
      if ← real.isDir then return fs.withDirectory (fs.spelled target)
      else return fs.withFile (fs.spelled target) (← IO.FS.readBinFile real).toList
    | .other => return fs
  catch _ => return fs

def takePath (contents : Bool) (fs : FileSystem) (p : Path) : IO FileSystem := do
  let loc := fs.spelled p
  try
    let real ← IO.FS.realPath p.display
    if ← real.isDir then
      (← real.readDir).foldlM (takeEntry contents loc) (fs.withDirectory loc)
    else
      let octets ← if contents then IO.FS.readBinFile real else pure .empty
      return fs.withFile loc octets.toList
  catch _ => return fs

def takeHome : IO FileSystem := do
  let root : FileSystem := ⟨[], [], []⟩
  let working := root.spelled (Path.ofString (← IO.currentDir).toString)
  return { root.withDirectory working with working := working }

def takeDirectories (x : Sidecar) : IO FileSystem := do
  let fs ← takePath true (← takeHome) x.config.srcDir
  takePath false fs x.config.dstDir

def takeControls (m : MemoryRelief) : IO FileSystem := do
  let fs ← takePath true (← takeHome) m.usagePath
  takePath false fs m.dropPath

/-- Stores what has changed. Nothing is discarded unless everything has been stored. -/
def store (before after : FileSystem) : IO Unit := do
  try
    for (loc, content) in before.stored after do
      let path := (FileSystem.pathTo loc).display
      try IO.FS.writeBinFile path ⟨content.toArray⟩
      catch e =>
        if (before.node? loc).isNone then IO.FS.removeFile path
        throw e
    for loc in before.discarded after do
      IO.FS.removeFile (FileSystem.pathTo loc).display
  catch e => IO.eprintln e

def namesIn (p : Path) : IO (List Name) := do
  try
    let entries ← (← IO.FS.realPath p.display).readDir
    return (entries.toList.map fun e => Utf8.ofString e.fileName).mergeSort fun a b => a ≤ b
  catch _ => return []

def lockStateOf (h : IO.FS.Handle) : IO LockState := do
  try
    return if ← h.tryLock then .lockable else .held
  catch e => return .failing (.locking (.other e.toString))

def tryLock (p : Path) : IO LockState := do
  try
    lockStateOf (← IO.FS.Handle.mk p.display .read)
  catch
    | .noFileOrDirectory .. => return .absent
    | e => return .failing (.opening (.other e.toString))

/-- A run under way, with the names seen last and the beginnings of the drain, if there is one,
and of the wait for the next relief cycle. -/
structure Session where
  sidecar : Sidecar
  logger : Log.Logger
  state : Sidecar.State
  names : List Name
  draining : Option Instant
  relieved : Instant

namespace Session

def goTo (s : Session) (state : Sidecar.State) : IO Session := do
  emit s.logger state.logs
  return { s with state := { state with logs := [] } }

def act (s : Session) (f : Sidecar.State → Sidecar.State) : IO Session := do
  let fs ← takeDirectories s.sidecar
  let state := f { s.state with files := fs }
  store fs state.files
  s.goTo state

def arrive (s : Session) : IO Session := do
  let x := s.sidecar
  let names ← namesIn x.config.srcDir
  let fresh := names.filter fun n => !s.names.contains n
  let s := { s with names := names }
  if fresh.isEmpty then return s
  s.act fun state =>
    let notices := fresh.map fun n => Notice.change .created [x.config.srcDir.join n]
    let state := { state with inbox := state.inbox ++ notices }
    x.join (x.takeNotices state.inbox.length state)

def hear (s : Session) (now : Instant) (g : Signal) : IO Session := do
  if s.draining.isSome then return s
  { s with draining := some now }.goTo (s.sidecar.signal now g s.state)

def drain (s : Session) (now : Instant) : IO Session := do
  let some began := s.draining | return s
  let x := s.sidecar
  let lock := x.config.lockFile
  let s ←
    if s.state.coordinator = .draining then
      s.goTo (s.state.withTurn (s.state.coordinator.poll lock (← tryLock lock) s.state.trigger))
    else pure s
  if began + x.config.drainDeadline ≤ now then s.goTo (x.expire s.state) else return s

/-- Makes a relief cycle when its time has come. The caches are dropped before the second reading
is taken. -/
def relieve (s : Session) (now : Instant) : IO Session := do
  let m := s.sidecar.memory
  if now < s.relieved + m.interval ∨ s.state.relief ≠ .returned then return s
  let s := { s with relieved := now }
  let fs ← takeControls m
  let (before, dropped, logs) := m.opening fs
  store fs dropped
  emit s.logger logs
  let some before := before | return s
  let (relief, more) := m.closing before (← takeControls m)
  let (done, line) := MemoryRelief.report relief
  emit s.logger (more ++ line)
  return { s with state := { s.state with relief := done } }

/-- Ends the run. A source directory that has gone has taken its watch with it. -/
def finish (s : Session) : IO Unit := do
  let fs ← takeDirectories s.sidecar
  let place := s.state.watch.place.filter fun loc => (fs.node? loc).isSome
  let e := s.sidecar.finish
    { s.state with files := fs, watch := { s.state.watch with place := place } }
  store fs e.files
  emit s.logger e.logs

end Session

def signals : List (Signal × Std.Async.Signal) :=
  [(.terminate, .sigterm), (.interrupt, .sigint), (.hangup, .sighup), (.quit, .sigquit)]

def serve (l : Log.Logger) (c : Config) : IO UInt32 := do
  let x := Sidecar.ofConfig c
  emit l [Program.startRecord]
  let start ← IO.monoNanosNow
  let names ← namesIn c.srcDir
  match x.start start [] none (← takeDirectories x) with
  | (.error e, logs) =>
    emit l (logs ++ [Program.unstartedRecord e])
    IO.eprint (Program.watchFailure e).report
    return 1
  | (.ok state, logs) =>
    let arrivals ← signals.mapM fun g => do
      return (g.1, ← (← Std.Async.Signal.Waiter.mk g.2 true).wait)
    emit l logs
    let mut s : Session := ⟨x, l, { state with logs := [] }, names, none, start⟩
    while !s.state.trigger.cancelled do
      let now ← IO.monoNanosNow
      for (g, arrival) in arrivals do
        if ← IO.hasFinished arrival then s ← s.hear now g
      s ← s.arrive
      s ← s.drain now
      s ← s.relieve now
      IO.sleep (Duration.millis Lock.pollInterval).toUInt32
    s.finish
    return 0

def run (args : List String) : IO UInt32 := do
  let env ← Program.variableNames.filterMapM fun v => do
    return (← IO.getEnv v).map fun value => (v, Utf8.ofString value)
  match Program.launch (args.map Utf8.ofString) env with
  | .usage e =>
    IO.print (Program.usageOutput e)
    IO.eprint (Program.usageReport e)
    return (Program.usageCode e).toUInt32
  | .rejected l e =>
    emit l [Program.startRecord, Program.invalidRecord e]
    IO.eprint (Program.configFailure e).report
    return 1
  | .ready l c => serve l c

end CaptureExport.CommandLine

def main (args : List String) : IO UInt32 := CaptureExport.CommandLine.run args
