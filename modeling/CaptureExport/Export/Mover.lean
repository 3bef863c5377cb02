import CaptureExport.Event
import CaptureExport.Export.Retry
import CaptureExport.Path.Basic

/-! # Moves

A move copies one file into the destination directory under its own name, with a suffix when it
is compressed, and may delete the source afterwards.
-/

namespace CaptureExport

structure MoveOptions where
  compress : Bool := false
  deleteOnSuccess : Bool := false
  deriving DecidableEq, Repr

structure MoveReport where
  target : Path
  bytes : Nat
  attempts : Nat
  deleted : Bool
  deriving DecidableEq, Repr

/-- Why a move failed. -/
inductive MoveError where
  | open (path : Path) (cause : IoError)
  | create (path : Path) (cause : IoError)
  | exhausted (source target : Path) (attempts : Nat) (cause : IoError)
  | cancelled (path : Path) (attempts : Nat)
  | refused (path : Path)
  deriving DecidableEq, Repr

namespace MoveError

def message : MoveError → String
  | .open p e => s!"failed to open source {p.display}: {e.message}"
  | .create p e => s!"failed to create destination {p.display}: {e.message}"
  | .exhausted s t n e =>
    s!"failed to copy {s.display} into {t.display} after {n} attempt(s): {e.message}"
  | .cancelled p n => s!"copy of {p.display} cancelled after {n} attempt(s)"
  | .refused p => s!"terminal flush of {p.display} refused while the watcher is active"

/-- The number of attempts that the error speaks of. -/
def attempts? : MoveError → Option Nat
  | .exhausted _ _ n _ => some n
  | .cancelled _ n => some n
  | _ => none

end MoveError

/-- The destination directory and the retry policy of all moves. -/
structure Mover where
  destination : Path
  retry : RetryPolicy := {}
  deriving DecidableEq, Repr

namespace Mover

def gzipSuffix : Bytes := Utf8.ofString ".gz"

def nameFor (source : Path) : Bytes := source.fileName?.getD source.bytes

def targetFor (m : Mover) (source : Path) (compress : Bool) : Path :=
  let plain := m.destination.join (nameFor source)
  if compress then ⟨plain.bytes ++ gzipSuffix⟩ else plain

end Mover

namespace Move

def origin : String := "dd_pcap_fsnotify::events"

def record (level : Log.Level) (source target : Path) (bytes : Nat) (cause : Option IoError)
    (message : String) : Log.Record :=
  Event.exporting.record level origin message
    ([("source", .shown source.display), ("target", .shown target.display),
      ("bytes", .nat bytes)] ++
      match cause with
      | some e => [("error", .shown e.message)]
      | none => [])

end Move
end CaptureExport
