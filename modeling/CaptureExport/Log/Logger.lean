import CaptureExport.FileSystem.Error
import CaptureExport.Json.Printer
import CaptureExport.Log.Level
import CaptureExport.Log.Value

/-! # The logger

Every admitted record becomes one JSON object on a line of its own. The fields of the record
take precedence over the static ones of the logger, and the four fixed keys over both.
-/

namespace CaptureExport.Log

/-- One thing to log. -/
structure Record where
  level : Level
  origin : String
  message : String
  fields : List (String × Value)
  deriving DecidableEq, Repr

structure Logger where
  threshold : Threshold
  static : Json.Members

inductive InitError where
  | sink (cause : IoError)
  | installed
  deriving DecidableEq, Repr

namespace InitError

def message : InitError → String
  | sink e => "failed to open log sink: " ++ e.message
  | installed => "logger already initialized: attempted to set a logger after the logging " ++
      "system was already initialized"

end InitError

namespace Record

def members (static : Json.Members) (r : Record) : Json.Members :=
  let m := static.insertAll (r.fields.map fun f => (f.1, f.2.toJson))
  m.insertAll [("severity", .str r.level.name), ("message", .str r.message),
    ("logger", .str r.origin)]

end Record

namespace Logger

def default : Logger := ⟨.upTo .info, []⟩

def withThreshold (t : Threshold) (l : Logger) : Logger := ⟨t, l.static⟩

def withField (key : String) (value : Json) (l : Logger) : Logger :=
  ⟨l.threshold, l.static.insert key value⟩

def enabled (l : Logger) (r : Record) : Bool := l.threshold.admits r.level

def object (l : Logger) (time : String) (r : Record) : Json :=
  .obj ((r.members l.static).insert "time" (.str time))

def line (l : Logger) (time : String) (r : Record) : List Char :=
  (l.object time r).write ++ ['\n']

def output (l : Logger) (entries : List (String × Record)) : List Char :=
  (entries.filter fun e => l.enabled e.2).flatMap fun e => l.line e.1 e.2

end Logger
end CaptureExport.Log
