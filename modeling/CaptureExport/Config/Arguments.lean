import CaptureExport.Config.Environment
import CaptureExport.Config.Runtime
import CaptureExport.Text.Number
import CaptureExport.Word

/-! # Arguments

Every option can be given on the command line, once, or by an environment variable, which counts
only when the command line is silent. A value of its own argument is held back until the next
option or the end of the line, and is read then.
-/

namespace CaptureExport

inductive Opt where
  | srcDir
  | gcsDir
  | pcapExt
  | gzip
  | delete
  | env
  | gae
  | interval
  | retriesMax
  | retriesDelay
  | lockFile
  | deadline
  | debug
  deriving DecidableEq, Repr

namespace Opt

def all : List Opt :=
  [srcDir, gcsDir, pcapExt, gzip, delete, env, gae, interval, retriesMax, retriesDelay, lockFile,
    deadline, debug]

def name : Opt → String
  | srcDir => "src_dir"
  | gcsDir => "gcs_dir"
  | pcapExt => "pcap_ext"
  | gzip => "gzip"
  | delete => "delete"
  | env => "env"
  | gae => "gae"
  | interval => "interval"
  | retriesMax => "retries_max"
  | retriesDelay => "retries_delay"
  | lockFile => "lock_file"
  | deadline => "deadline"
  | debug => "debug"

def envName : Opt → String
  | srcDir => "PCAP_SRC_DIR"
  | gcsDir => "PCAP_GCS_DIR"
  | pcapExt => "PCAP_EXT"
  | gzip => "PCAP_GZIP"
  | delete => "PCAP_DELETE"
  | env => "PCAP_ENV"
  | gae => "PCAP_GAE"
  | interval => "PCAP_ROTATE_SECS"
  | retriesMax => "PCAP_RETRIES_MAX"
  | retriesDelay => "PCAP_RETRIES_DELAY"
  | lockFile => "PCAP_LOCK_FILE"
  | deadline => "PCAP_DRAIN_DEADLINE"
  | debug => "PCAP_DEBUG"

def isFlag : Opt → Bool
  | gzip | gae | debug => true
  | _ => false

def usage (o : Opt) : String :=
  if o.isFlag then "--" ++ o.name
  else "--" ++ o.name ++ " <" ++ String.ofList (o.name.toList.map Char.toUpper) ++ ">"

def ofName? (s : String) : Option Opt := all.find? fun o => o.name = s

end Opt

/-- Why a command line gives no arguments. Asking for help or for the version is among the
reasons. -/
inductive UsageError where
  | invalidValue (argument value : String)
  | outOfRange (argument value : String)
  | unknown (argument : String)
  | repeated (argument : String)
  | surplusValue (argument value : String)
  | illFormedText
  | help
  | version
  deriving DecidableEq, Repr

namespace UsageError

def message : UsageError → String
  | invalidValue argument value => s!"invalid value '{value}' for '{argument}'"
  | outOfRange argument value => s!"invalid value '{value}' for '{argument}': out of range"
  | unknown argument => s!"unexpected argument '{argument}'"
  | repeated argument => s!"the argument '{argument}' cannot be given more than once"
  | surplusValue argument value => s!"unexpected value '{value}' for '{argument}'"
  | illFormedText => "an argument is no well-formed text"
  | help => "help is asked for"
  | version => "the version is asked for"

end UsageError

structure Arguments where
  srcDir : Path := Path.ofString "/pcap-tmp"
  gcsDir : Path := Path.ofString "/pcap"
  pcapExt : String := "pcap"
  gzip : Bool := false
  delete : Bool := true
  env : Runtime := .run
  gae : Bool := false
  interval : Nat := 60
  retriesMax : Nat := 5
  retriesDelay : Nat := 2
  lockFile : Path := Path.ofString "/var/lock/pcap.lock"
  deadline : Nat := 3
  debug : Bool := false
  deriving DecidableEq, Repr

namespace Arguments

def readPath (o : Opt) (raw : Bytes) : Except UsageError Path :=
  if raw.isEmpty then .error (.invalidValue o.usage "") else .ok ⟨raw⟩

def readText (raw : Bytes) : Except UsageError String :=
  match Utf8.text? raw with
  | some s => .ok s
  | none => .error .illFormedText

/-- A natural number below `2 ^ 32`; zero may carry a minus sign. -/
def half? (cs : List Char) : Option Nat :=
  match cs with
  | '-' :: r =>
    if !r.isEmpty && r.all Text.isAsciiDigit && Text.digitsValue r = 0 then some 0 else none
  | r => Text.naturalBelow? Word.limit32 r

def readNumber (o : Opt) (read? : List Char → Option Nat) (raw : Bytes) :
    Except UsageError Nat := do
  let s ← readText raw
  match read? s.toList with
  | some n => .ok n
  | none => .error (.outOfRange o.usage s)

def readTruth (o : Opt) (raw : Bytes) : Except UsageError Bool :=
  if raw = Utf8.ofString "true" then .ok true
  else if raw = Utf8.ofString "false" then .ok false
  else .error (.invalidValue o.usage (Utf8.lossy raw))

def readRuntime (o : Opt) (raw : Bytes) : Except UsageError Runtime :=
  match (Utf8.text? raw).bind Runtime.ofName? with
  | some r => .ok r
  | none => .error (.invalidValue o.usage (Utf8.lossy raw))

def set (a : Arguments) (o : Opt) (raw : Bytes) : Except UsageError Arguments :=
  match o with
  | .srcDir => do let v ← readPath o raw; pure { a with srcDir := v }
  | .gcsDir => do let v ← readPath o raw; pure { a with gcsDir := v }
  | .pcapExt => do let v ← readText raw; pure { a with pcapExt := v }
  | .gzip => do let v ← readTruth o raw; pure { a with gzip := v }
  | .delete => do let v ← readTruth o raw; pure { a with delete := v }
  | .env => do let v ← readRuntime o raw; pure { a with env := v }
  | .gae => do let v ← readTruth o raw; pure { a with gae := v }
  | .interval => do let v ← readNumber o Text.word? raw; pure { a with interval := v }
  | .retriesMax => do let v ← readNumber o half? raw; pure { a with retriesMax := v }
  | .retriesDelay => do let v ← readNumber o Text.word? raw; pure { a with retriesDelay := v }
  | .lockFile => do let v ← readPath o raw; pure { a with lockFile := v }
  | .deadline => do let v ← readNumber o Text.word? raw; pure { a with deadline := v }
  | .debug => do let v ← readTruth o raw; pure { a with debug := v }

/-- What has been read of a command line: the values so far, the options they come from, and the
option whose value is held back, once it has been met. -/
structure Reading where
  values : Arguments := {}
  given : List Opt := []
  held : Option (Opt × Option Bytes) := none

namespace Reading

def take (r : Reading) (o : Opt) (raw : Bytes) : Except UsageError Reading := do
  if o ∈ r.given then throw (.repeated o.usage)
  let values ← r.values.set o raw
  pure { r with values := values, given := o :: r.given }

def settle (r : Reading) : Except UsageError Reading :=
  match r.held with
  | none => .ok r
  | some (o, none) => .error (.invalidValue o.usage "")
  | some (o, some raw) => Reading.take { r with held := none } o raw

def takeLong (r : Reading) (body : Bytes) : Except UsageError Reading := do
  let name := body.takeWhile (· ≠ 0x3D)
  let attached := (body.dropWhile (· ≠ 0x3D)).tail?
  match Utf8.text? name with
  | none => throw (.unknown ("--" ++ Utf8.lossy name))
  | some "help" => special r "--help" attached .help
  | some "version" => special r "--version" attached .version
  | some s =>
    match Opt.ofName? s, attached with
    | none, _ => throw (.unknown ("--" ++ s))
    | some o, some raw =>
      if o.isFlag then throw (.surplusValue o.usage (Utf8.lossy raw))
      else do
        let r ← r.settle
        r.take o raw
    | some o, none => do
      let r ← r.settle
      if o.isFlag then r.take o (Utf8.ofString "true") else pure { r with held := some (o, none) }
where
  /-- A request that ends the reading. -/
  special (r : Reading) (usage : String) (attached : Option Bytes) (e : UsageError) :
      Except UsageError Reading :=
    match attached with
    | some raw => throw (.surplusValue usage (Utf8.lossy raw))
    | none => do
      let _ ← r.settle
      throw e

def takeShort (r : Reading) (body : Bytes) : Except UsageError Reading :=
  match Utf8.pieces body with
  | .char 'h' :: _ => do let _ ← r.settle; throw .help
  | .char 'V' :: _ => do let _ ← r.settle; throw .version
  | .char c :: _ => throw (.unknown (String.ofList ['-', c]))
  | _ => throw (.unknown ("-" ++ Utf8.lossy body))

/-- Reads the arguments one by one. Behind `--` every argument is unknown. -/
def takeAll (r : Reading) : List Bytes → Except UsageError Reading
  | [] => r.settle
  | a :: rest =>
    if a = Utf8.ofString "--" then
      match rest with
      | [] => r.settle
      | x :: _ => throw (.unknown (Utf8.lossy x))
    else
      match a with
      | 0x2D :: 0x2D :: body => do
        let r ← r.takeLong body
        takeAll r rest
      | 0x2D :: b :: body => do
        let r ← r.takeShort (b :: body)
        takeAll r rest
      | _ =>
        match r.held with
        | some (o, none) => takeAll { r with held := some (o, some a) } rest
        | _ => throw (.unknown (Utf8.lossy a))

def takeVariable (env : Environment) (r : Reading) (o : Opt) : Except UsageError Reading :=
  if o ∈ r.given then .ok r
  else
    match env.get? o.envName with
    | some raw => r.take o raw
    | none => .ok r

end Reading

def parse (args : List Bytes) (env : Environment) : Except UsageError Arguments := do
  let r ← Reading.takeAll {} args
  let r ← Opt.all.foldlM (Reading.takeVariable env) r
  pure r.values

end Arguments
end CaptureExport
