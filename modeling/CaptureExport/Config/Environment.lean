import CaptureExport.Text.Utf8

/-! # Environment variables -/

namespace CaptureExport

abbrev Environment := List (String × Bytes)

namespace Environment

def get? (name : String) (env : Environment) : Option Bytes :=
  (env.find? fun v => v.1 = name).map Prod.snd

def text (name : String) (env : Environment) : String :=
  ((get? name env).bind Utf8.text?).getD ""

end Environment

/-- The identity of a deployment, which stands on every line of its log. -/
structure Deployment where
  sidecar : String
  module : String
  tags : List String
  deriving DecidableEq, Repr

namespace Deployment

def tagVariables : List String :=
  ["PROJECT_ID", "APP_SERVICE", "GCP_REGION", "APP_VERSION", "INSTANCE_ID"]

def sidecarVariable : String := "APP_SIDECAR"

def moduleVariable : String := "PROC_NAME"

def variableNames : List String := sidecarVariable :: moduleVariable :: tagVariables

def ofEnvironment (env : Environment) : Deployment where
  sidecar := env.text sidecarVariable
  module := env.text moduleVariable
  tags := tagVariables.map fun name => env.text name

end Deployment
end CaptureExport
