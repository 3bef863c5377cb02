import CaptureExport.FileSystem.Resolve

/-! # Operations on files

Each operation either fails and leaves the file system as it was, or gives the new one.
-/

namespace CaptureExport.FileSystem

def locate (fs : FileSystem) (follow : Bool) (p : Path) : Except IoError (Location × Node) :=
  match fs.resolve follow p with
  | .error e => .error e
  | .ok (.directory loc, _) => .ok (loc, .directory)
  | .ok (.entry _ _ none, _) => .error .missing
  | .ok (.entry parent name (some node), slash) =>
    if slash ∧ node ≠ .directory then .error .notDirectory else .ok (name :: parent, node)

def stat (fs : FileSystem) (p : Path) : Except IoError (Location × Node) := fs.locate true p

def linkStat (fs : FileSystem) (p : Path) : Except IoError (Location × Node) :=
  fs.locate (endsInSeparator p) p

def hasPath (fs : FileSystem) (p : Path) : Bool := (fs.stat p).isOk

def hasDirectory (fs : FileSystem) (p : Path) : Bool :=
  match fs.stat p with
  | .ok (_, .directory) => true
  | _ => false

/-- An open file, or a directory that was opened like one. -/
inductive Opened where
  | directory
  | file (id : FileId)
  deriving DecidableEq, Repr

/-- Opens for reading; directories can be opened, but not read. -/
def openRead (fs : FileSystem) (p : Path) : Except IoError Opened :=
  match fs.stat p with
  | .error e => .error e
  | .ok (_, .file id) => .ok (.file id)
  | .ok _ => .ok .directory

def readOpened (fs : FileSystem) : Opened → Except IoError Bytes
  | .directory => .error .isDirectory
  | .file id => .ok (fs.content id)

def readFile (fs : FileSystem) (p : Path) : Except IoError Bytes :=
  match fs.openRead p with
  | .error e => .error e
  | .ok opened => fs.readOpened opened

def openWrite (fs : FileSystem) (p : Path) : Except IoError FileId :=
  match fs.stat p with
  | .error e => .error e
  | .ok (_, .file id) => .ok id
  | .ok _ => .error .isDirectory

def openOrCreate (fs : FileSystem) (p : Path) : Except IoError (FileSystem × FileId) :=
  match fs.resolve (!endsInSeparator p) p with
  | .error e => .error e
  | .ok (.directory _, _) => .error .isDirectory
  | .ok (.entry parent name node, slash) =>
    if slash then .error .isDirectory
    else
      match node with
      | none => .ok (fs.insertFile (name :: parent) [])
      | some (.file id) => .ok (fs, id)
      | some _ => .error .isDirectory

/-- Creates a file that must not exist; a link at the end is not followed. -/
def createNew (fs : FileSystem) (p : Path) : Except IoError (FileSystem × FileId) :=
  match fs.resolve false p with
  | .error e => .error e
  | .ok (.directory _, _) => .error .occupied
  | .ok (.entry parent name node, slash) =>
    if slash then .error .isDirectory
    else
      match node with
      | none => .ok (fs.insertFile (name :: parent) [])
      | some _ => .error .occupied

def writeFile (fs : FileSystem) (p : Path) (content : Bytes) : Except IoError FileSystem :=
  match fs.openOrCreate p with
  | .error e => .error e
  | .ok (fs, id) => .ok (fs.setContent id content)

def overwrite (fs : FileSystem) (p : Path) (content : Bytes) : Except IoError FileSystem :=
  match fs.openWrite p with
  | .error e => .error e
  | .ok id => .ok (fs.setContent id content)

def unlink (fs : FileSystem) (p : Path) : Except IoError FileSystem :=
  match fs.resolve false p with
  | .error e => .error e
  | .ok (.directory _, _) => .error .isDirectory
  | .ok (.entry _ _ none, _) => .error .missing
  | .ok (.entry _ _ (some .directory), _) => .error .isDirectory
  | .ok (.entry parent name (some _), slash) =>
    if slash then .error .notDirectory else .ok (fs.erase (name :: parent))

/-- Removes a name that is no directory, unless the system denies it. -/
def unlinkUnless (fs : FileSystem) (denial : Option IoError) (p : Path) :
    Except IoError FileSystem :=
  match denial with
  | some e => .error e
  | none => fs.unlink p

def makeDirectory (fs : FileSystem) (p : Path) : Except IoError FileSystem :=
  match fs.resolve false p with
  | .error e => .error e
  | .ok (.directory _, _) => .error .occupied
  | .ok (.entry parent name none, _) => .ok (fs.insert (name :: parent) .directory)
  | .ok (.entry _ _ (some _), _) => .error .occupied

/-- Creates a directory with those above it that are absent, at most `depth` of them. -/
def makeDirectories (fs : FileSystem) : Nat → Path → Except IoError FileSystem
  | depth, p =>
    if p.bytes.isEmpty then .ok fs
    else
      match fs.makeDirectory p with
      | .ok fs => .ok fs
      | .error .missing =>
        match depth, p.parent? with
        | depth + 1, some above =>
          match makeDirectories fs depth above with
          | .error e => .error e
          | .ok fs =>
            match fs.makeDirectory p with
            | .ok fs => .ok fs
            | .error e => if fs.hasDirectory p then .ok fs else .error e
        | _, _ => .error (.other "failed to create whole tree")
      | .error e => if fs.hasDirectory p then .ok fs else .error e

def removeTree (fs : FileSystem) (p : Path) : Except IoError FileSystem :=
  match fs.linkStat p with
  | .error e => .error e
  | .ok (_, .link _) => fs.unlink p
  | .ok (_, .file _) => .error .notDirectory
  | .ok (loc, .directory) =>
    match fs.resolve false p with
    | .ok (.entry _ _ _, _) => .ok (fs.eraseWithin loc)
    | _ => .error .invalidArgument

def relocate (fs : FileSystem) (source target : Location) : FileSystem :=
  { fs with
    entries := fs.entries.map fun e =>
      if isWithin source e.1 then (e.1.take (e.1.length - source.length) ++ target, e.2) else e }

def rename (fs : FileSystem) (source target : Path) : Except IoError FileSystem :=
  match fs.resolve false source, fs.resolve false target with
  | .error e, _ => .error e
  | _, .error e => .error e
  | .ok (.directory _, _), _ => .error .busy
  | _, .ok (.directory _, _) => .error .busy
  | .ok (.entry _ _ none, _), _ => .error .missing
  | .ok (.entry fromDir fromName (some node), fromSlash),
    .ok (.entry toDir toName there, toSlash) =>
    let fromLoc := fromName :: fromDir
    let toLoc := toName :: toDir
    if node ≠ .directory ∧ (fromSlash ∨ toSlash) then .error .notDirectory
    else if fromLoc = toLoc then .ok fs
    else if isWithin fromLoc toLoc then .error .invalidArgument
    else if isWithin toLoc fromLoc then .error .notEmpty
    else
      match node, there with
      | .directory, some .directory =>
        if (fs.children toLoc).isEmpty then .ok ((fs.erase toLoc).relocate fromLoc toLoc)
        else .error .notEmpty
      | .directory, some _ => .error .notDirectory
      | _, some .directory => .error .isDirectory
      | _, some _ => .ok ((fs.erase toLoc).relocate fromLoc toLoc)
      | _, none => .ok (fs.relocate fromLoc toLoc)

def makeLink (fs : FileSystem) (p : Path) (target : Path) : Except IoError FileSystem :=
  if target.bytes.contains 0 ∨ p.bytes.contains 0 then .error .nulOctet
  else if target.bytes.isEmpty then .error .missing
  else if pathLimit ≤ target.bytes.length then .error .nameTooLong
  else
    match fs.resolve false p with
    | .error e => .error e
    | .ok (.directory _, _) => .error .occupied
    | .ok (.entry _ _ (some _), _) => .error .occupied
    | .ok (.entry parent name none, slash) =>
      if slash then .error .missing else .ok (fs.insert (name :: parent) (.link target))

inductive Step where
  | write (path : Path) (content : Bytes)
  | mkdir (path : Path)
  | rm (path : Path)
  | rmdir (path : Path)
  | rename (source target : Path)
  | symlink (path target : Path)
  deriving DecidableEq, Repr

/-- Carries out a step; one that fails changes nothing. -/
def apply (fs : FileSystem) : Step → Except IoError FileSystem
  | .write p content => fs.writeFile p content
  | .mkdir p => fs.makeDirectories p.components.length p
  | .rm p => fs.unlink p
  | .rmdir p => fs.removeTree p
  | .rename p q => fs.rename p q
  | .symlink p t => fs.makeLink p t

def after (fs : FileSystem) (s : Step) : FileSystem :=
  match fs.apply s with
  | .ok gs => gs
  | .error _ => fs

end CaptureExport.FileSystem
