import CaptureExport.Path.Basic

/-! # Notices

What the kernel tells about a watched directory. Paths that appear in it are announced as created
or as the new name of a rename; a rename inside the directory is told once more with both names,
which announces nothing new.
-/

namespace CaptureExport

inductive ChangeKind where
  | created
  | renamedTo
  | renamedFrom
  | renamedBoth
  | modified
  | removed
  | other
  deriving DecidableEq, Repr

inductive Notice where
  | change (kind : ChangeKind) (paths : List Path)
  | failure (message : String)
  deriving DecidableEq, Repr

namespace ChangeKind

def isArrival : ChangeKind → Bool
  | created | renamedTo => true
  | _ => false

end ChangeKind

namespace Notice

def arrivals : Notice → List Path
  | change kind paths => if kind.isArrival then paths else []
  | failure _ => []

end Notice
end CaptureExport
