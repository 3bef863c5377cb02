import CaptureExport.Event
import CaptureExport.FileSystem.Operations
import CaptureExport.Watch.Notice

/-! # Registrations

A watch is attached to the node that its path leads to, and follows that node wherever it is
moved. The paths of its notices are spelled as names below the path it was asked for.
-/

namespace CaptureExport

/-- A watch with the place of the watched node, for as long as it exists. -/
structure Watch where
  path : Path
  place : Option Location
  deriving DecidableEq, Repr

structure WatchError where
  path : Path
  cause : IoError
  deriving DecidableEq, Repr

namespace WatchError

def reason (e : WatchError) : String :=
  e.cause.message ++ " about [" ++ Text.quotedBytes e.path.bytes ++ "]"

def message (e : WatchError) : String := s!"failed to watch {e.path.display}: {e.reason}"

end WatchError

namespace Watch

def origin : String := "dd_pcap_fsnotify::watcher"

def startRecord : Log.Record :=
  Event.opening.record .info origin "starting PCAP filesystem watcher" []

def readyRecord (path : Path) : Log.Record :=
  Event.opening.record .info origin s!"watching directory: {path.display}"
    [("source", .shown path.display)]

def placeOf (fs : FileSystem) (path : Path) : Except IoError Location :=
  if path.bytes.isEmpty then .ok fs.working else (fs.stat path).map Prod.fst

def register (path : Path) (fs : FileSystem) : Except WatchError Watch × List Log.Record :=
  match placeOf fs path with
  | .ok loc => (.ok ⟨path, some loc⟩, [startRecord, readyRecord path])
  | .error e => (.error ⟨path, e⟩, [startRecord])

def nameIn (dir loc : Location) : Option Name :=
  match loc with
  | name :: parent => if parent = dir then some name else none
  | [] => none

/-- The names that a step has added to a directory. New entries stand behind all others. -/
def appeared (dir : Location) (before after : FileSystem) : List Name :=
  (after.entries.drop before.entries.length).filterMap fun e => nameIn dir e.1

/-- The location at the end of a path that is renamed or replaced. -/
def entryOf (fs : FileSystem) (path : Path) : Option Location :=
  match fs.resolve false path with
  | .ok (.entry parent name _, _) => some (name :: parent)
  | _ => none

def renameNotices (path : Path) (dir source target : Location) : List Notice :=
  match nameIn dir source, nameIn dir target with
  | some old, some new =>
    [.change .renamedFrom [path.join old], .change .renamedTo [path.join new],
      .change .renamedBoth [path.join old, path.join new]]
  | some old, none => [.change .renamedFrom [path.join old]]
  | none, some new => [.change .renamedTo [path.join new]]
  | none, none => []

/-- The place of a node after a rename between two locations, unless it was replaced. -/
def placeAfterRename (place source target : Location) : Option Location :=
  if FileSystem.isWithin source place then
    some (place.take (place.length - source.length) ++ target)
  else if place = target then none
  else some place

/-- What a watch reports of a step, and the watch after it. -/
def observe (w : Watch) (fs : FileSystem) (step : FileSystem.Step) : List Notice × Watch :=
  match w.place, fs.apply step with
  | some dir, .ok after =>
    let noticed : List Notice × Option Location :=
      match step with
      | .rename p q =>
        match entryOf fs p, entryOf fs q with
        | some source, some target =>
          if source = target then ([], some dir)
          else (renameNotices w.path dir source target, placeAfterRename dir source target)
        | _, _ => ([], some dir)
      | _ =>
        ((appeared dir fs after).map fun name => .change .created [w.path.join name],
          if (after.node? dir).isSome then some dir else none)
    (noticed.1, { w with place := noticed.2 })
  | _, _ => ([], w)

def follow (w : Watch) (fs : FileSystem) :
    List FileSystem.Step → List Notice × Watch × FileSystem
  | [] => ([], w, fs)
  | s :: steps =>
    let (notices, w) := w.observe fs s
    let (more, w, fs) := follow w (fs.after s) steps
    (notices ++ more, w, fs)

/-- The line at the end, when the watched node has gone before. -/
def lostRecord (path : Path) : Log.Record :=
  Event.failure.record .warn origin "failed to remove PCAP filesystem watch"
    [("source", .shown path.display),
      ("error", .shown ("No watch was found. about [" ++ Text.quotedBytes path.bytes ++ "]"))]

def stopRecord (path : Path) : Log.Record :=
  Event.closing.record .info origin "stopped PCAP filesystem watcher"
    [("source", .shown path.display)]

def stop (w : Watch) : List Log.Record :=
  (if w.place.isNone then [lostRecord w.path] else []) ++ [stopRecord w.path]

end Watch
end CaptureExport
