/-! # Stream keys

A capture stream is identified by its ordinal, its name and the extension of its files; all the
segments it rotates through share the key.
-/

namespace CaptureExport

/-- The identity of a capture stream. -/
structure StreamKey where
  ordinal : Nat
  stream : String
  extension : String
  deriving DecidableEq, Repr, Inhabited

namespace StreamKey

def interface (k : StreamKey) : String := s!"{k.ordinal}:{k.stream}"

def display (k : StreamKey) : String := s!"{k.ordinal}/{k.stream}/{k.extension}"

end StreamKey
end CaptureExport
