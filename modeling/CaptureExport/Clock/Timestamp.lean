import CaptureExport.Clock.Basic

/-! # Dates and times of day

A time is counted in nanoseconds from the start of 1970 and written in UTC. To find its date, years
begin in March, so that the day which only some years have is the last one of its year.
-/

namespace CaptureExport

structure Date where
  year : Nat
  month : Nat
  day : Nat
  deriving DecidableEq, Repr

namespace Date

def cycleDays : Nat := 146097

def daysToEpoch : Nat := 719468

def daysBefore (year : Nat) : Nat := 365 * year + year / 4 - year / 100

def yearOf (day : Nat) : Nat := (day - day / 1460 + day / 36524 - day / 146096) / 365

def ofDays (n : Nat) : Date :=
  let n := n + daysToEpoch
  let year := yearOf (n % cycleDays)
  let inYear := n % cycleDays - daysBefore year
  let month := (5 * inYear + 2) / 153
  { year := n / cycleDays * 400 + year + (if month < 10 then 0 else 1)
    month := if month < 10 then month + 3 else month - 9
    day := inYear - (153 * month + 2) / 5 + 1 }

end Date

/-- A time in nanoseconds after the start of 1970. -/
abbrev Timestamp := Nat

namespace Timestamp

def padded (width n : Nat) : List Char :=
  let digits := Nat.toDigits 10 n
  List.replicate (width - digits.length) '0' ++ digits

def date (t : Timestamp) : Date := Date.ofDays (Duration.seconds t / 86400)

def text (t : Timestamp) : String :=
  let d := t.date
  let s := Duration.seconds t % 86400
  let fraction := Duration.fractionDigits 9 (t % 1000000000)
  String.ofList (padded 4 d.year ++ '-' :: padded 2 d.month ++ '-' :: padded 2 d.day ++
    'T' :: padded 2 (s / 3600) ++ ':' :: padded 2 (s / 60 % 60) ++ ':' :: padded 2 (s % 60) ++
    (if fraction.isEmpty then [] else '.' :: fraction) ++ ['Z'])

end Timestamp
end CaptureExport
