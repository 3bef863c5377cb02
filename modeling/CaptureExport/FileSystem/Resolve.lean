import CaptureExport.FileSystem.Basic

/-! # Path resolution

A path is walked name by name from the root or the working directory. Symbolic links in the
middle are followed always, at most forty of them; a link at the end only when the operation
asks for it. The limits on names and paths are those of an ordinary file system.
-/

namespace CaptureExport.FileSystem

def pathLimit : Nat := 4096

def linkLimit : Nat := 40

/-- Where a path leads: to a directory by way of `.`, `..` or the root, or to an entry of a
directory, which may be free. -/
inductive Spot where
  | directory (loc : Location)
  | entry (parent : Location) (name : Name) (node : Option Node)
  deriving DecidableEq, Repr

/-- A walk up to the end of the path or to a link that has to be followed. -/
inductive Leg where
  | arrived (spot : Spot)
  | failed (e : IoError)
  | link (base : Location) (target : Path) (rest : List Name)
  deriving DecidableEq, Repr

def leg (fs : FileSystem) (follow : Bool) (base : Location) : List Name → Leg
  | [] => .arrived (.directory base)
  | name :: rest =>
    if name = Path.dot then leg fs follow base rest
    else if name = Path.dotDot then leg fs follow base.tail rest
    else if nameLimit < name.length then .failed .nameTooLong
    else
      match fs.node? (name :: base) with
      | none => if rest.isEmpty then .arrived (.entry base name none) else .failed .missing
      | some .directory =>
        if rest.isEmpty then .arrived (.entry base name (some .directory))
        else leg fs follow (name :: base) rest
      | some (.file id) =>
        if rest.isEmpty then .arrived (.entry base name (some (.file id)))
        else .failed .notDirectory
      | some (.link target) =>
        if rest.isEmpty ∧ !follow then .arrived (.entry base name (some (.link target)))
        else .link base target rest

def endsInSeparator (p : Path) : Bool := p.bytes.getLast? == some Path.separator

/-- Walks along names and follows links, at most `budget` of them. The flag says whether the
path, or the last link followed at its end, ends in a separator. -/
def walk (fs : FileSystem) (follow : Bool) :
    Nat → Location → List Name → Bool → Except IoError (Spot × Bool)
  | budget, base, names, slash =>
    match leg fs follow base names with
    | .arrived spot => .ok (spot, slash)
    | .failed e => .error e
    | .link at' target rest =>
      match budget with
      | 0 => .error .tooManyLinks
      | budget + 1 =>
        walk fs follow budget (if target.isAbsolute then [] else at') (target.fields ++ rest)
          (slash || (rest.isEmpty && endsInSeparator target))

/-- Where a path leads, and whether it has to be a directory. -/
def resolve (fs : FileSystem) (follow : Bool) (p : Path) : Except IoError (Spot × Bool) :=
  if p.bytes.contains 0 then .error .nulOctet
  else if p.bytes.isEmpty then .error .missing
  else if pathLimit ≤ p.bytes.length then .error .nameTooLong
  else
    walk fs follow linkLimit (if p.isAbsolute then [] else fs.working) p.fields
      (endsInSeparator p)

end CaptureExport.FileSystem
