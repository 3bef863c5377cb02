import CaptureExport.Path.Basic

/-! # Runtimes

The kind of deployment the exporter runs in, which decides where the memory of its control group
is counted.
-/

namespace CaptureExport

inductive Runtime where
  | run
  | gae
  | gke
  deriving DecidableEq, Repr, Inhabited

namespace Runtime

def all : List Runtime := [run, gae, gke]

def name : Runtime → String
  | run => "run"
  | gae => "gae"
  | gke => "gke"

def ofName? (s : String) : Option Runtime := all.find? fun r => r.name = s

def usagePath : Runtime → Path
  | gae => Path.ofString "/sys/fs/cgroup/memory.current"
  | run | gke => Path.ofString "/sys/fs/cgroup/memory/memory.usage_in_bytes"

end Runtime
end CaptureExport
