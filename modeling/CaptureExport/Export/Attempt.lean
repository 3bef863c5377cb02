import CaptureExport.FileSystem.Operations
import CaptureExport.Gzip.Framing

/-! # Copy attempts

A copy reads an open source from its position and writes to an open target at its position. What
one attempt does is described by data: it completes, it fails after reading and writing something,
or its task panics. Before that, somebody else may remove a name or cancel the move. After a copy
the system may deny the deletion of the source, as in a directory that is read only.
-/

namespace CaptureExport

inductive CopyResult where
  | complete
  | fails (consumed : Nat) (written : Bytes) (cause : IoError)
  | surplus (extra : Bytes) (cause : IoError)
  | panics (message : String)
  deriving DecidableEq, Repr

/-- One call of the copier with what happens around it. -/
structure Attempt where
  unlinks : Option Path := none
  cancels : Bool := false
  result : CopyResult := .complete
  denial : Option IoError := none
  deriving DecidableEq, Repr

/-- What the next calls of the copier do; every call after them completes. -/
abbrev Plan := List Attempt

namespace Plan

def next : Plan → Attempt × Plan
  | [] => ({}, [])
  | a :: r => (a, r)

end Plan

structure Handles where
  input : FileSystem.Opened
  inputAt : Nat
  output : FileId
  outputAt : Nat
  deriving DecidableEq, Repr

/-- A content with octets written over it from a position on; a gap is filled with zeros. -/
def overlay (content : Bytes) (position : Nat) (octets : Bytes) : Bytes :=
  content.take position ++ List.replicate (position - content.length) 0 ++ octets ++
    content.drop (position + octets.length)

namespace Handles

def opened (input : FileSystem.Opened) (output : FileId) : Handles := ⟨input, 0, output, 0⟩

def rewind (h : Handles) (fs : FileSystem) : Handles × FileSystem :=
  (⟨h.input, 0, h.output, 0⟩, fs.setContent h.output [])

def write (h : Handles) (octets : Bytes) (fs : FileSystem) : Handles × FileSystem :=
  ({ h with outputAt := h.outputAt + octets.length },
    fs.setContent h.output (overlay (fs.content h.output) h.outputAt octets))

def unread (h : Handles) (fs : FileSystem) : Except IoError Bytes :=
  (fs.readOpened h.input).map fun content => content.drop h.inputAt

def rendering (compress : Bool) (content : Bytes) : Bytes :=
  if compress then Gzip.encode content else content

/-- Copies what is left of the source, and counts the octets read. -/
def copy (h : Handles) (compress : Bool) (fs : FileSystem) :
    Except IoError Nat × Handles × FileSystem :=
  match h.unread fs with
  | .error e => (.error e, h, fs)
  | .ok data =>
    let (h, fs) := Handles.write { h with inputAt := h.inputAt + data.length }
      (rendering compress data) fs
    (.ok data.length, h, fs)

/-- How one attempt ended. -/
inductive Ending where
  | copied (bytes : Nat)
  | failed (cause : IoError)
  | panicked (message : String)
  deriving DecidableEq, Repr

/-- Carries out an attempt, after rewinding both handles. -/
def attempt (h : Handles) (compress : Bool) (a : Attempt) (fs : FileSystem) :
    Ending × Handles × FileSystem :=
  let (h, fs) := h.rewind fs
  let unlinked : Except IoError FileSystem :=
    match a.unlinks with
    | none => .ok fs
    | some p => fs.unlink p
  match unlinked with
  | .error e => (.failed e, h, fs)
  | .ok fs =>
    match a.result with
    | .complete =>
      match h.copy compress fs with
      | (.ok n, h, fs) => (.copied n, h, fs)
      | (.error e, h, fs) => (.failed e, h, fs)
    | .fails consumed written cause =>
      let (h, fs) := Handles.write { h with inputAt := h.inputAt + consumed } written fs
      (.failed cause, h, fs)
    | .surplus extra cause =>
      match h.copy compress fs with
      | (.ok _, h, fs) =>
        let (h, fs) := h.write extra fs
        (.failed cause, h, fs)
      | (.error e, h, fs) => (.failed e, h, fs)
    | .panics message => (.panicked message, h, fs)

end Handles
end CaptureExport
