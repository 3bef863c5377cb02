import CaptureExport.Export.Task
import CaptureExport.FileSystem.Operations
import CaptureExport.Segment.Pattern

/-! # Scanning for pending segments

The source directory is walked depth first, the entries of each directory in the order of their
names. Links are not followed, except the source directory itself. A segment is pending unless
its plain or its compressed target exists.
-/

namespace CaptureExport.Flush

def origin : String := "dd_pcap_fsnotify::flush"

inductive Found where
  | file (path : Path)
  | failed (path : Path) (cause : IoError)
  deriving DecidableEq, Repr

/-- Walks the directory at a location, at most a number of levels deep. -/
def walkDirectory (fs : FileSystem) : Nat → Location → Path → List Found
  | 0, _, _ => []
  | depth + 1, loc, path =>
    if FileSystem.pathLimit ≤ path.bytes.length then [.failed path .nameTooLong]
    else
      (fs.children loc).flatMap fun entry =>
        match entry.2 with
        | .directory => walkDirectory fs depth (entry.1 :: loc) (path.join entry.1)
        | .file _ => [.file (path.join entry.1)]
        | .link _ => []

/-- Walks from a source directory. No directory lies deeper than there are entries. -/
def walk (fs : FileSystem) (src : Path) : List Found :=
  match fs.linkStat src with
  | .error e => [.failed src e]
  | .ok (_, .file _) => [.file src]
  | .ok (loc, .directory) => walkDirectory fs (fs.entries.length + 1) loc src
  | .ok (_, .link _) =>
    match fs.stat src with
    | .error e => [.failed src e]
    | .ok (loc, .directory) => walkDirectory fs (fs.entries.length + 1) loc src
    | .ok _ => []

def isExported (fs : FileSystem) (mover : Mover) (path : Path) : Bool :=
  fs.hasPath (mover.targetFor path false) || fs.hasPath (mover.targetFor path true)

def scanFailedRecord (src path : Path) (cause : IoError) : Log.Record :=
  Event.failure.record .warn origin "failed to scan PCAP files"
    [("source", .shown src.display),
      ("error", .shown s!"IO error for operation on {path.display}: {cause.message}")]

def exportedRecord (path : Path) : Log.Record :=
  Event.closing.record .debug origin s!"PCAP file already exported: {path.display}"
    [("source", .shown path.display)]

/-- What a scan makes of one find: a task or a line, or neither. -/
def judge (fs : FileSystem) (src : Path) (pattern : SegmentPattern) (mover : Mover) :
    Found → List ExportTask × List Log.Record
  | .failed path cause => ([], [scanFailedRecord src path cause])
  | .file path =>
    match pattern.key? path with
    | none => ([], [])
    | some key =>
      if isExported fs mover path then ([], [exportedRecord path])
      else ([⟨path, key, .terminal⟩], [])

def pending (fs : FileSystem) (src : Path) (pattern : SegmentPattern) (mover : Mover) :
    List ExportTask × List Log.Record :=
  let judged := (walk fs src).map (judge fs src pattern mover)
  (judged.flatMap Prod.fst, judged.flatMap Prod.snd)

end CaptureExport.Flush
