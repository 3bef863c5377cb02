import CaptureExport.Path.Basic
import CaptureExport.Segment.Key

/-! # The rotation tracker

The capture process always writes to its newest segment, so a segment may be exported once the
next one of its stream has appeared. For every stream the tracker counts the segments created and
remembers the newest one, which is active. Observing a segment and advancing the active one are
two separate atomic accesses, so that dispatches for one stream may race.
-/

namespace CaptureExport

/-- What is known of a stream. -/
structure Slot where
  count : Nat := 0
  active : Option Path := none
  deriving DecidableEq, Repr, Inhabited

/-- The slots of the streams observed or advanced so far. -/
structure Tracker where
  slots : List (StreamKey × Slot) := []
  deriving DecidableEq, Repr

/-- What the creation of a segment means for its stream. -/
inductive Rotation where
  | first
  | superseded (previous : Path) (iteration : Nat)
  | orphaned (iteration : Nat)
  deriving DecidableEq, Repr

namespace Rotation

def iteration : Rotation → Nat
  | first => 1
  | superseded _ n => n
  | orphaned n => n

end Rotation

namespace Tracker

def slot? (t : Tracker) (key : StreamKey) : Option Slot :=
  (t.slots.find? fun s => s.1 = key).map Prod.snd

def slot (t : Tracker) (key : StreamKey) : Slot := (t.slot? key).getD {}

def set (t : Tracker) (key : StreamKey) (s : Slot) : Tracker :=
  match t.slot? key with
  | none => ⟨t.slots ++ [(key, s)]⟩
  | some _ => ⟨t.slots.map fun e => if e.1 = key then (key, s) else e⟩

def active? (t : Tracker) (key : StreamKey) : Option Path := (t.slot key).active

def count (t : Tracker) (key : StreamKey) : Nat := (t.slot key).count

def size (t : Tracker) : Nat := t.slots.length

def isEmpty (t : Tracker) : Bool := t.slots.isEmpty

/-- Counts a segment of a stream. The active segment is only set here when there is none to be
superseded. -/
def observe (t : Tracker) (key : StreamKey) (segment : Path) : Rotation × Tracker :=
  let s := t.slot key
  let n := s.count + 1
  if n = 1 then (.first, t.set key ⟨n, some segment⟩)
  else
    match s.active with
    | some previous =>
      if previous.bytes.isEmpty then (.orphaned n, t.set key ⟨n, some segment⟩)
      else (.superseded previous n, t.set key ⟨n, s.active⟩)
    | none => (.orphaned n, t.set key ⟨n, some segment⟩)

/-- Makes a segment the active one of its stream, and says whether it took the place of the
expected predecessor. -/
def advance (t : Tracker) (key : StreamKey) (previous segment : Path) : Bool × Tracker :=
  let s := t.slot key
  let expected :=
    match s.active with
    | some path => path.alike previous
    | none => false
  (expected, t.set key ⟨s.count, some segment⟩)

def rotate (t : Tracker) (key : StreamKey) (segment : Path) : Tracker :=
  match t.observe key segment with
  | (.superseded previous _, t) => (t.advance key previous segment).2
  | (_, t) => t

end Tracker
end CaptureExport
