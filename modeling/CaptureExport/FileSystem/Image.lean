import CaptureExport.FileSystem.Basic

/-! # Images

An image is built node by node from what has been found elsewhere, and what a run has done to it
is read off as contents to store and locations to discard.
-/

namespace CaptureExport.FileSystem

def spelled (fs : FileSystem) (p : Path) : Location :=
  p.fields.foldl
    (fun loc f => if f = Path.dot then loc else if f = Path.dotDot then loc.tail else f :: loc)
    (if p.isAbsolute then [] else fs.working)

def pathTo (loc : Location) : Path :=
  ⟨Path.separator :: Text.joinWith Path.separator loc.reverse⟩

def withDirectory (fs : FileSystem) : Location → FileSystem
  | [] => fs
  | name :: parent =>
    let fs := fs.withDirectory parent
    if (fs.node? (name :: parent)).isSome then fs else fs.insert (name :: parent) .directory

def withFile (fs : FileSystem) (loc : Location) (content : Bytes) : FileSystem :=
  let fs := fs.withDirectory loc.tail
  if (fs.node? loc).isSome then fs else (fs.insertFile loc content).1

def withLink (fs : FileSystem) (loc : Location) (target : Path) : FileSystem :=
  let fs := fs.withDirectory loc.tail
  if (fs.node? loc).isSome then fs else fs.insert loc (.link target)

def stored (before after : FileSystem) : List (Location × Bytes) :=
  after.entries.filterMap fun e =>
    match e.2 with
    | .file id =>
      if before.standing? e.1 = some (.file (after.content id)) then none
      else some (e.1, after.content id)
    | _ => none

def discarded (before after : FileSystem) : List Location :=
  before.entries.filterMap fun e =>
    if e.2 ≠ .directory ∧ (after.node? e.1).isNone then some e.1 else none

end CaptureExport.FileSystem
