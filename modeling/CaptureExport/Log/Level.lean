import CaptureExport.Text.Blank
import CaptureExport.Text.Utf8

/-! # Severity levels

A record has a level. A logger has a threshold, which admits the records at least as severe.
-/

namespace CaptureExport.Log

inductive Level where
  | error
  | warn
  | info
  | debug
  | trace
  deriving DecidableEq, Repr, Inhabited

namespace Level

def rank : Level → Nat
  | error => 0
  | warn => 1
  | info => 2
  | debug => 3
  | trace => 4

def name : Level → String
  | error => "ERROR"
  | warn => "WARN"
  | info => "INFO"
  | debug => "DEBUG"
  | trace => "TRACE"

def all : List Level := [error, warn, info, debug, trace]

end Level

/-- The least severe level that is written, if any. -/
inductive Threshold where
  | off
  | upTo (level : Level)
  deriving DecidableEq, Repr, Inhabited

namespace Threshold

def name : Threshold → String
  | off => "OFF"
  | upTo l => l.name

def all : List Threshold := off :: Level.all.map upTo

def admits : Threshold → Level → Bool
  | off, _ => false
  | upTo t, l => l.rank ≤ t.rank

def ofName? (s : String) : Option Threshold :=
  all.find? fun t => t.name.toList = s.toList.map Char.toUpper

/-- The threshold that an environment variable asks for: its text without blanks around it,
when it is a name, and the default otherwise. -/
def ofVariable (value : Option Bytes) (fallback : Threshold) : Threshold :=
  let named := do
    let chars ← Utf8.decode? (← value)
    ofName? (String.ofList (Text.trim chars))
  named.getD fallback

end Threshold
end CaptureExport.Log
