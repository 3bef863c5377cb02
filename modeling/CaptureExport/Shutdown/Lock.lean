import CaptureExport.Clock.Basic
import CaptureExport.FileSystem.Operations

/-! # The lock file

The companion holds a lock on a file while it captures, or has not created the file yet. The lock
is polled at a fixed interval until it can be taken.
-/

namespace CaptureExport

/-- Why the lock file is of no use: the system does not open it, or does not lock it. -/
inductive LockFault where
  | opening (cause : IoError)
  | locking (cause : IoError)
  deriving DecidableEq, Repr

inductive LockState where
  | lockable
  | held
  | absent
  | failing (fault : LockFault)
  deriving DecidableEq, Repr

/-- What an attempt would find at every time after the start. -/
abbrev LockHistory := Duration → LockState

/-- Why the lock could not be taken. -/
inductive LockError where
  | open (path : Path) (fault : LockFault)
  | timedOut (path : Path) (timeout : Duration)
  | cancelled (path : Path)
  deriving DecidableEq, Repr

namespace LockError

def message : LockError → String
  | .open p (.opening e) => s!"failed to open lock file {p.display}: {e.message}"
  | .open p (.locking e) => s!"failed to lock {p.display}: {e.message}"
  | .timedOut p t => s!"timed out after {Duration.display t} waiting for lock file {p.display}"
  | .cancelled p => s!"cancelled while waiting for lock file {p.display}"

end LockError

namespace Lock

def pollInterval : Duration := Duration.ofMillis 10

/-- How polling ends with an attempt, and when; nothing when another attempt follows. A wait that
would pass the timeout is not begun, and cancellation is only seen while waiting. -/
def ending? (path : Path) (timeout : Duration) (cancel : Option Duration) (at' : Duration) :
    LockState → Option (Except LockError Unit × Duration)
  | .lockable => some (.ok (), at')
  | .failing f => some (.error (.open path f), at')
  | .held | .absent =>
    if timeout < at' + pollInterval then some (.error (.timedOut path timeout), at')
    else
      match cancel with
      | some c =>
        if c < at' + pollInterval then some (.error (.cancelled path), max c at') else none
      | none => none

section Polling

variable {m : Type → Type} [Monad m] (attempt : Duration → m LockState) (path : Path)
  (timeout : Duration) (cancel : Option Duration)

def pollWith : Nat → Duration → m (Except LockError Unit × Duration)
  | 0, at' => pure (.error (.timedOut path timeout), at')
  | n + 1, at' => do
    match ending? path timeout cancel at' (← attempt at') with
    | some r => pure r
    | none => pollWith n (at' + pollInterval)

def acquireWith : m (Except LockError Unit × Duration) :=
  pollWith attempt path timeout cancel (timeout / pollInterval + 1) 0

/-- A call at an instant. It panics before the first attempt when its end is no instant. -/
def callWith (now : Instant) : m (Except String (Except LockError Unit × Duration)) :=
  match Instant.after? now timeout with
  | none => pure (.error Instant.overflowMessage)
  | some _ => .ok <$> acquireWith attempt path timeout cancel

end Polling

section History

variable (path : Path) (history : LockHistory) (timeout : Duration) (cancel : Option Duration)

def pollFrom (n : Nat) (at' : Duration) : Except LockError Unit × Duration :=
  Id.run (pollWith (fun t => pure (history t)) path timeout cancel n at')

def acquire : Except LockError Unit × Duration :=
  Id.run (acquireWith (fun t => pure (history t)) path timeout cancel)

def call (now : Instant) : Except String (Except LockError Unit × Duration) :=
  Id.run (callWith (fun t => pure (history t)) path timeout cancel now)

end History
end Lock

inductive LockChange where
  | release
  | create
  | remove
  deriving DecidableEq, Repr

/-- The lock file at a moment: the files, and the node on which the companion holds the lock. -/
structure LockScene where
  files : FileSystem
  holder : Option (Location × Node)

namespace LockScene

def start (fs : FileSystem) (path : Path) (held : Bool) : LockScene :=
  ⟨fs, if held then (fs.stat path).toOption else none⟩

def holds (s : LockScene) (found : Location × Node) : Bool :=
  match s.holder with
  | none => false
  | some (loc, node) => node = found.2 && (node ≠ .directory || loc = found.1)

def state (s : LockScene) (path : Path) : LockState :=
  match s.files.stat path with
  | .error .missing => .absent
  | .error e => .failing (.opening e)
  | .ok found => if s.holds found then .held else .lockable

def change (path : Path) (s : LockScene) : LockChange → LockScene
  | .release => { s with holder := none }
  | .create => { s with files := s.files.after (.write path []) }
  | .remove => { s with files := s.files.after (.rm path) }

def upTo (path : Path) (changes : List (Duration × LockChange)) (s : LockScene)
    (t : Duration) : LockScene :=
  ((changes.filter fun c => c.1 ≤ t).map Prod.snd).foldl (change path) s

def history (path : Path) (changes : List (Duration × LockChange)) (s : LockScene) : LockHistory :=
  fun t => (s.upTo path changes t).state path

end LockScene
end CaptureExport
