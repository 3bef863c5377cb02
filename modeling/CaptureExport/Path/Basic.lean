import CaptureExport.Text.Split
import CaptureExport.Text.Utf8

/-! # Paths

A path is a sequence of octets, kept as it is spelled. Two paths are alike when they have the
same components: repeated separators, a separator at the end and inner components `.` do not
matter.
-/

namespace CaptureExport

/-- A file-system path as it is spelled. -/
structure Path where
  bytes : Bytes
  deriving DecidableEq, Repr, Inhabited

namespace Path

def separator : UInt8 := 0x2F

def dot : Bytes := [0x2E]

def dotDot : Bytes := [0x2E, 0x2E]

def ofString (s : String) : Path := ⟨Utf8.ofString s⟩

def display (p : Path) : String := Utf8.lossy p.bytes

def isAbsolute (p : Path) : Bool := p.bytes.head? == some separator

def fields (p : Path) : List Bytes :=
  (Text.splitAt separator p.bytes).filter fun f => !f.isEmpty

inductive Component where
  | root
  | here
  | above
  | name (octets : Bytes)
  deriving DecidableEq, Repr

/-- The component of a field that is not the first of a relative path. -/
def innerComponent (field : Bytes) : Option Component :=
  if field = dot then none
  else if field = dotDot then some .above
  else some (.name field)

/-- The components; `.` is one only at the start of a relative path. -/
def components (p : Path) : List Component :=
  if p.isAbsolute then .root :: p.fields.filterMap innerComponent
  else
    match p.fields with
    | [] => []
    | f :: fs =>
      if f = dot then .here :: fs.filterMap innerComponent
      else (f :: fs).filterMap innerComponent

def alike (p q : Path) : Bool := p.components = q.components

def fileName? (p : Path) : Option Bytes :=
  match p.components.getLast? with
  | some (.name n) => some n
  | _ => none

def Component.bytes : Component → Bytes
  | .root => []
  | .here => dot
  | .above => dotDot
  | .name n => n

def ofComponents : List Component → Path
  | [.root] => ⟨[separator]⟩
  | cs => ⟨Text.joinWith separator (cs.map Component.bytes)⟩

def parent? (p : Path) : Option Path :=
  match p.components.getLast? with
  | none | some .root => none
  | some _ => some (ofComponents p.components.dropLast)

/-- A name below a directory. An absolute name replaces the directory. -/
def join (dir : Path) (name : Bytes) : Path :=
  if name.head? = some separator then ⟨name⟩
  else if dir.bytes.isEmpty ∨ dir.bytes.getLast? = some separator then ⟨dir.bytes ++ name⟩
  else ⟨dir.bytes ++ separator :: name⟩

end Path
end CaptureExport
