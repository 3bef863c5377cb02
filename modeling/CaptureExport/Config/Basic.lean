import CaptureExport.Clock.Basic
import CaptureExport.Config.Arguments
import CaptureExport.Export.Retry
import CaptureExport.Log.Level
import CaptureExport.Text.Blank
import CaptureExport.Text.Split

/-! # Configuration

The settings of a run, taken from arguments that make sense together.
-/

namespace CaptureExport

structure Config where
  srcDir : Path
  dstDir : Path
  extensions : List String
  compress : Bool
  delete : Bool
  runtime : Runtime
  interval : Duration
  retry : RetryPolicy
  lockFile : Path
  drainDeadline : Duration
  deriving DecidableEq, Repr

inductive ConfigError where
  | noExtension (raw : String)
  | zeroInterval
  | zeroRetries
  deriving DecidableEq, Repr

namespace ConfigError

def message : ConfigError → String
  | noExtension raw => "no segment extension configured: '" ++ raw ++ "'"
  | zeroInterval => "rotation interval must be greater than zero"
  | zeroRetries => "retries_max must be at least 1"

end ConfigError

namespace Config

/-- One extension of a list: without blanks around it and then without dots before it. -/
def extensionOf (field : List Char) : List Char :=
  (Text.trim field).dropWhile (· = '.')

def parseExtensions (raw : String) : List String :=
  ((Text.splitAt ',' raw.toList).map extensionOf).filterMap fun e =>
    if e.isEmpty then none else some (String.ofList e)

def ofArguments (a : Arguments) : Except ConfigError Config :=
  let extensions := parseExtensions a.pcapExt
  if extensions.isEmpty then .error (.noExtension a.pcapExt)
  else if a.interval = 0 then .error .zeroInterval
  else if a.retriesMax = 0 then .error .zeroRetries
  else .ok {
    srcDir := a.srcDir
    dstDir := a.gcsDir
    extensions := extensions
    compress := a.gzip
    delete := a.delete
    runtime := if a.gae then .gae else a.env
    interval := Duration.ofSeconds a.interval
    retry := ⟨a.retriesMax, Duration.ofSeconds a.retriesDelay⟩
    lockFile := a.lockFile
    drainDeadline := Duration.ofSeconds a.deadline }

end Config

def Arguments.threshold (a : Arguments) : Log.Threshold :=
  if a.debug then .upTo .debug else .upTo .info

end CaptureExport
