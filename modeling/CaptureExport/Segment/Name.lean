import CaptureExport.Segment.Pattern

/-! # Writing segment names

The written form of a segment name, and the grammar of all names that stand for a key.
-/

namespace CaptureExport

structure SegmentName where
  key : StreamKey
  date : List Char
  time : List Char

namespace SegmentName

def spell (digits stream date time extension : List Char) : List Char :=
  "part__".toList ++ digits ++ '_' :: stream ++ "__".toList ++ date ++ 'T' :: time ++
    '.' :: extension

def render (n : SegmentName) : List Char :=
  spell (Nat.toDigits 10 n.key.ordinal) n.key.stream.toList n.date n.time n.key.extension.toList

/-- A way to read a name: its characters are those of a segment with an extension of the
pattern. -/
structure Split (p : SegmentPattern) (name : List Char) where
  digits : List Char
  stream : List Char
  date : List Char
  time : List Char
  extension : String
  spelled : name = spell digits stream date time extension.toList
  digits_ne : digits ≠ []
  digits_ascii : ∀ c ∈ digits, Text.isAsciiDigit c
  stream_ne : stream ≠ []
  stream_line : '\n' ∉ stream
  date_length : date.length = 8
  date_digits : ∀ c ∈ date, Text.isDigit c
  time_length : time.length = 6
  time_digits : ∀ c ∈ time, Text.isDigit c
  accepted : extension ∈ p.accepted

def Split.key {p : SegmentPattern} {name : List Char} (s : Split p name) : StreamKey :=
  ⟨Text.digitsValue s.digits, String.ofList s.stream, s.extension⟩

end SegmentName
end CaptureExport
