import CaptureExport.Failure
import CaptureExport.Sidecar.Script

/-! # The program

The program reads its arguments, sets up its log and runs one sidecar. It ends well when the
sidecar does, with code one when there is none to run, and with code two when its arguments make
no sense.
-/

namespace CaptureExport.Program

def name : String := "dd-pcap-fsnotify"

def version : String := "0.1.0"

def origin : String := "dd_pcap_fsnotify"

def versionText : String := name ++ " " ++ version ++ "\n"

def helpText : String :=
  "Usage: " ++ name ++ " [OPTIONS]\n\nOptions:\n" ++
    String.join (Opt.all.map fun o => "  " ++ o.usage ++ " [env: " ++ o.envName ++ "]\n")

def isAnswered : UsageError → Bool
  | .help | .version => true
  | _ => false

def usageCode (e : UsageError) : Nat := if isAnswered e then 0 else 2

def usageOutput : UsageError → String
  | .help => helpText
  | .version => versionText
  | _ => ""

def usageReport (e : UsageError) : String :=
  if isAnswered e then "" else s!"error: {e.message}\n"

def levelVariable : String := "DD_LOG_LEVEL"

def variableNames : List String :=
  levelVariable :: Opt.all.map Opt.envName ++ Deployment.variableNames

def logger (args : Arguments) (env : Environment) : Log.Logger :=
  let d := Deployment.ofEnvironment env
  ((Log.Logger.default.withThreshold
      (Log.Threshold.ofVariable (env.get? levelVariable) args.threshold)).withField
    "sidecar" (.str d.sidecar)).withField "module" (.str d.module) |>.withField
    "tags" (.arr (d.tags.map Json.str))

def startRecord : Log.Record :=
  ⟨.info, origin, s!"{name} starting (version {version})", []⟩

def failedRecord (occasion : String) (f : Failure) : Log.Record :=
  Event.opening.record .error origin s!"{occasion}: {f.inline}" [("error", .shown f.message)]

def configFailure (e : ConfigError) : Failure := ⟨e.message, []⟩

def watchFailure (e : WatchError) : Failure :=
  ⟨s!"failed to watch {e.path.display}", [e.message, e.reason]⟩

def invalidRecord (e : ConfigError) : Log.Record :=
  failedRecord "invalid configuration" (configFailure e)

def unstartedRecord (e : WatchError) : Log.Record :=
  failedRecord "failed to start PCAP export sidecar" (watchFailure e)

inductive Launch where
  | usage (e : UsageError)
  | rejected (logger : Log.Logger) (e : ConfigError)
  | ready (logger : Log.Logger) (config : Config)

def launch (args : List Bytes) (env : Environment) : Launch :=
  match Arguments.parse args env with
  | .error e => .usage e
  | .ok a =>
    match Config.ofArguments a with
    | .error e => .rejected (logger a env) e
    | .ok c => .ready (logger a env) c

/-- The end of the program: its code, what it writes besides its log, the report of a failure, the
fields and lines of its log, and the files. -/
structure Exit where
  code : Nat
  output : String := ""
  report : String := ""
  static : Json.Members := []
  logs : List Log.Record := []
  files : FileSystem

def Exit.ofLogger (l : Log.Logger) (code : Nat) (report : String) (logs : List Log.Record)
    (fs : FileSystem) : Exit :=
  ⟨code, "", report, l.static, logs.filter l.enabled, fs⟩

/-- A scripted run of the program; nothing when the script does not end it. -/
def run (args : List Bytes) (env : Environment) (now : Instant)
    (holder : Option (Location × Node)) (script : List Sidecar.Command) (fs : FileSystem)
    (plan : Plan := []) : Option Exit :=
  match launch args env with
  | .usage e =>
    some { code := usageCode e, output := usageOutput e, report := usageReport e, files := fs }
  | .rejected l e =>
    some (.ofLogger l 1 (configFailure e).report [startRecord, invalidRecord e] fs)
  | .ready l c =>
    let x := Sidecar.ofConfig c
    match x.start now plan holder fs with
    | (.error e, logs) =>
      some (.ofLogger l 1 (watchFailure e).report (startRecord :: logs ++ [unstartedRecord e]) fs)
    | (.ok s, _) =>
      (x.run now script s).map fun e => .ofLogger l 0 "" (startRecord :: e.logs) e.files

end CaptureExport.Program
