import CaptureExport.Export.Attempt
import CaptureExport.Export.Mover

/-! # Steps of a move

A move opens its source, creates its target, copies with retries, and then either removes the
partial target or deletes the source. Each of these is one step, so that moves can be interleaved.
Cancellation is seen only while a move waits between two attempts.
-/

namespace CaptureExport.Move

/-- How far a move has come. -/
inductive Phase where
  | starting
  | opened (input : FileSystem.Opened)
  | copying (handles : Handles) (made : Nat)
  | waiting (handles : Handles) (made : Nat)
  | removing (error : MoveError)
  | deleting (bytes attempts : Nat) (denial : Option IoError)
  | ended (result : Except MoveError MoveReport)

namespace Phase

def result? : Phase → Option (Except MoveError MoveReport)
  | ended r => some r
  | _ => none

def work (attempts : Nat) : Phase → Nat
  | starting => 2 * attempts + 4
  | opened _ => 2 * attempts + 3
  | copying _ made => 2 * (attempts - made) + 2
  | waiting _ made => 2 * (attempts - made) + 3
  | removing _ => 1
  | deleting _ _ _ => 1
  | ended _ => 0

end Phase

variable (mover : Mover) (source : Path) (options : MoveOptions)

def target : Path := mover.targetFor source options.compress

def note (level : Log.Level) (bytes : Nat) (cause : Option IoError) (message : String) :
    Log.Record :=
  record level source (target mover source options) bytes cause message

structure Outcome where
  phase : Phase
  files : FileSystem
  logs : List Log.Record

def openSource (fs : FileSystem) : Outcome :=
  match fs.openRead source with
  | .ok input => ⟨.opened input, fs, []⟩
  | .error e =>
    ⟨.ended (.error (.open source e)), fs,
      [note mover source options .error 0 e s!"failed to OPEN file {source.display}"]⟩

def createTarget (input : FileSystem.Opened) (fs : FileSystem) : Outcome :=
  let t := target mover source options
  match fs.createNew t with
  | .ok (fs, output) => ⟨.copying (.opened input output) 0, fs, []⟩
  | .error e =>
    ⟨.ended (.error (.create t e)), fs,
      [note mover source options .error 0 e s!"failed to CREATE file: {t.display}"]⟩

def giveUp (made : Nat) (cause : IoError) (fs : FileSystem) : Outcome :=
  ⟨.removing (.exhausted source (target mover source options) made cause), fs,
    [note mover source options .error 0 cause s!"failed to COPY file: {source.display}"]⟩

def copyOnce (h : Handles) (made : Nat) (a : Attempt) (fs : FileSystem) : Outcome :=
  let made := made + 1
  match h.attempt options.compress a fs with
  | (.copied bytes, _, fs) =>
    let t := target mover source options
    ⟨if options.deleteOnSuccess then .deleting bytes made a.denial
      else .ended (.ok ⟨t, bytes, made, false⟩), fs,
      [note mover source options .info bytes none s!"COPIED: {source.display}"]⟩
  | (.panicked message, _, fs) =>
    giveUp mover source options made (.other (TaskEnd.panicText message)) fs
  | (.failed cause, h, fs) =>
    if mover.retry.attempts ≤ made then giveUp mover source options made cause fs
    else
      ⟨.waiting h made, fs,
        [note mover source options .warn 0 cause
          s!"failed to COPY file at attempt {made}: {source.display}"]⟩

def removePartial (error : MoveError) (fs : FileSystem) : Outcome :=
  let t := target mover source options
  match fs.unlink t with
  | .ok fs => ⟨.ended (.error error), fs, []⟩
  | .error e =>
    ⟨.ended (.error error), fs,
      [note mover source options .warn 0 e s!"failed to remove partial file: {t.display}"]⟩

def deleteSource (bytes attempts : Nat) (denial : Option IoError) (fs : FileSystem) : Outcome :=
  let t := target mover source options
  match fs.unlinkUnless denial source with
  | .ok fs =>
    ⟨.ended (.ok ⟨t, bytes, attempts, true⟩), fs,
      [note mover source options .info bytes none s!"DELETED: {source.display}"]⟩
  | .error e =>
    ⟨.ended (.ok ⟨t, bytes, attempts, false⟩), fs,
      [note mover source options .error bytes e s!"failed to DELETE file: {source.display}"]⟩

/-- One step of a move; the flag says whether it has been cancelled, and the attempt is what a
copy does. -/
def step (a : Attempt) (cancelled : Bool) (phase : Phase) (fs : FileSystem) : Outcome :=
  match phase with
  | .starting => openSource mover source options fs
  | .opened input => createTarget mover source options input fs
  | .copying h made => copyOnce mover source options h made a fs
  | .waiting h made =>
    ⟨if cancelled then .removing (.cancelled source made) else .copying h made, fs, []⟩
  | .removing e => removePartial mover source options e fs
  | .deleting bytes attempts denial =>
    deleteSource mover source options bytes attempts denial fs
  | .ended r => ⟨.ended r, fs, []⟩

end CaptureExport.Move
