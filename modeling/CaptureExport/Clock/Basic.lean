import CaptureExport.Decimal.Basic
import CaptureExport.Word

/-! # Time

Durations and instants are counted in nanoseconds. An instant holds its seconds in a signed
64-bit word, so that adding a duration can fail.
-/

namespace CaptureExport

/-- A length of time in nanoseconds. -/
abbrev Duration := Nat

/-- A point in time in nanoseconds after the start of the clock. -/
abbrev Instant := Nat

namespace Duration

def ofMillis (n : Nat) : Duration := n * 1000000
def ofSeconds (n : Nat) : Duration := n * 1000000000

def millis (d : Duration) : Nat := d / 1000000

def seconds (d : Duration) : Nat := d / 1000000000

def fractionDigits (places n : Nat) : List Char :=
  let digits := Nat.toDigits 10 n
  let padded := List.replicate (places - digits.length) '0' ++ digits
  (padded.reverse.dropWhile (· = '0')).reverse

def inUnit (places : Nat) (unit : String) (d : Duration) : String :=
  let fraction := fractionDigits places (d % Nat.pow 10 places)
  String.ofList (Nat.toDigits 10 (d / Nat.pow 10 places) ++
    (if fraction.isEmpty then [] else '.' :: fraction)) ++ unit

def display (d : Duration) : String :=
  if 1000000000 ≤ d then inUnit 9 "s" d
  else if 1000000 ≤ d then inUnit 6 "ms" d
  else if 1000 ≤ d then inUnit 3 "µs" d
  else inUnit 0 "ns" d

end Duration

namespace Instant

def secondLimit : Nat := Word.limit63

/-- The instant a duration later, when it can be held. -/
def after? (now : Instant) (d : Duration) : Option Instant :=
  if Duration.seconds (now + d) < secondLimit then some (now + d) else none

def overflowMessage : String := "overflow when adding duration to instant"

end Instant
end CaptureExport
