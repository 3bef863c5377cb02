import CaptureExport.FileSystem.Basic

/-! # Listing a tree

Everything below a directory, with relative paths, in the order of the paths as octets.
-/

namespace CaptureExport.FileSystem

def relativePath (dir loc : Location) : Path :=
  ⟨Text.joinWith Path.separator (loc.take (loc.length - dir.length)).reverse⟩

def listing (fs : FileSystem) (dir : Location) : List (Path × Node) :=
  let below := fs.entries.filterMap fun e =>
    if isWithin dir e.1 ∧ e.1 ≠ dir then some (relativePath dir e.1, e.2) else none
  below.mergeSort fun a b => a.1.bytes ≤ b.1.bytes

end CaptureExport.FileSystem
