import CaptureExport.Clock.Basic

/-! # Retry policy -/

namespace CaptureExport

structure RetryPolicy where
  maxAttempts : Nat := 5
  delay : Duration := Duration.ofSeconds 2
  deriving DecidableEq, Repr

namespace RetryPolicy

def attempts (r : RetryPolicy) : Nat := max r.maxAttempts 1

end RetryPolicy
end CaptureExport
