import CaptureExport.FileSystem.Error
import CaptureExport.Path.Basic

/-! # The file system

A tree of directories, regular files and symbolic links, as a finite map from locations to nodes.
A file is a number under which its content is kept, so that an open file outlives its name.
Nothing is written outside the working directory unless a path leads there.
-/

namespace CaptureExport

/-- The name of an entry in a directory. -/
abbrev Name := Bytes

/-- A place in the tree: the names from the innermost outwards. The root is the empty list, and
the tail of a location is the directory that holds it. -/
abbrev Location := List Name

abbrev FileId := Nat

inductive Node where
  | directory
  | file (id : FileId)
  | link (target : Path)
  deriving DecidableEq, Repr

structure FileSystem where
  entries : List (Location × Node)
  contents : List Bytes
  working : Location
  deriving DecidableEq, Repr

/-- What stands at a location, with the content of a file. -/
inductive Standing where
  | directory
  | file (content : Bytes)
  | link (target : Path)
  deriving DecidableEq, Repr

namespace FileSystem

def empty : FileSystem :=
  let home := [Utf8.ofString "work"]
  ⟨[(home, .directory)], [], home⟩

def node? (fs : FileSystem) (loc : Location) : Option Node :=
  if loc = [] then some .directory
  else (fs.entries.find? fun e => e.1 = loc).map Prod.snd

def content (fs : FileSystem) (id : FileId) : Bytes := fs.contents.getD id []

def standing? (fs : FileSystem) (loc : Location) : Option Standing :=
  (fs.node? loc).map fun
    | .directory => .directory
    | .file id => .file (fs.content id)
    | .link t => .link t

/-- Two file systems that look the same from every location. -/
def Looks (fs gs : FileSystem) : Prop := ∀ loc, fs.standing? loc = gs.standing? loc

def setContent (fs : FileSystem) (id : FileId) (content : Bytes) : FileSystem :=
  { fs with contents := fs.contents.set id content }

def insert (fs : FileSystem) (loc : Location) (node : Node) : FileSystem :=
  { fs with entries := fs.entries ++ [(loc, node)] }

def insertFile (fs : FileSystem) (loc : Location) (content : Bytes) : FileSystem × FileId :=
  ({ fs with
      entries := fs.entries ++ [(loc, .file fs.contents.length)]
      contents := fs.contents ++ [content] }, fs.contents.length)

def erase (fs : FileSystem) (loc : Location) : FileSystem :=
  { fs with entries := fs.entries.filter fun e => e.1 ≠ loc }

def isWithin (dir : Location) (loc : Location) : Bool := dir.isSuffixOf loc

def eraseWithin (fs : FileSystem) (dir : Location) : FileSystem :=
  { fs with entries := fs.entries.filter fun e => !isWithin dir e.1 }

def children (fs : FileSystem) (dir : Location) : List (Name × Node) :=
  let here := fs.entries.filterMap fun e =>
    match e.1 with
    | name :: parent => if parent = dir then some (name, e.2) else none
    | [] => none
  here.mergeSort fun a b => a.1 ≤ b.1

def nameLimit : Nat := 255

structure IsWord (name : Name) : Prop where
  ne_nil : name ≠ []
  no_separator : Path.separator ∉ name
  no_nul : 0 ∉ name
  ne_dot : name ≠ Path.dot
  ne_dotDot : name ≠ Path.dotDot

structure IsName (name : Name) : Prop extends IsWord name where
  short : name.length ≤ nameLimit

/-- What holds of every file system reached by the operations: locations are taken at most once,
lie in directories, and no two files share a content. -/
structure Sound (fs : FileSystem) : Prop where
  named : ∀ name parent node, (name :: parent, node) ∈ fs.entries → IsName name
  distinct : (fs.entries.map Prod.fst).Nodup
  rooted : ∀ e ∈ fs.entries, e.1 ≠ []
  parents : ∀ name parent node, (name :: parent, node) ∈ fs.entries →
    fs.node? parent = some .directory
  stored : ∀ loc id, (loc, Node.file id) ∈ fs.entries → id < fs.contents.length
  unshared : ∀ loc loc' id, (loc, Node.file id) ∈ fs.entries →
    (loc', Node.file id) ∈ fs.entries → loc = loc'
  home : fs.node? fs.working = some .directory

end FileSystem
end CaptureExport
