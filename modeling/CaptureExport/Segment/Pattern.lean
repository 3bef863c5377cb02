import CaptureExport.Path.Basic
import CaptureExport.Segment.Key
import CaptureExport.Text.Digit
import CaptureExport.Word

/-! # Segment names

A segment is named `part__<ordinal>_<stream>__<date>T<time>.<extension>`. The stream is the
shortest non-empty text without line breaks for which the rest of the name is a timestamp and
one of the configured extensions, so it may itself hold underscores, dots and digits.
-/

namespace CaptureExport

/-- The segment names with one of the given extensions. -/
structure SegmentPattern where
  extensions : List String
  deriving DecidableEq, Repr

namespace SegmentPattern

def isMeta (c : Char) : Bool :=
  ['\\', '.', '+', '*', '?', '(', ')', '|', '[', ']', '\x7b', '\x7d', '^', '$', '#', '&', '-',
    '~'].contains c

def escape (s : String) : String :=
  String.ofList (s.toList.flatMap fun c => if isMeta c then ['\\', c] else [c])

def expression (p : SegmentPattern) : String :=
  "^part__(\\d+?)_(.+?)__\\d\x7b8\x7dT\\d\x7b6\x7d\\.(" ++
    "|".intercalate (p.extensions.map escape) ++ ")$"

/-- The extensions that a name may end in; without any configured one only the empty extension
is left. -/
def accepted (p : SegmentPattern) : List String :=
  if p.extensions.isEmpty then [""] else p.extensions

def strip? : List Char → List Char → Option (List Char)
  | [], cs => some cs
  | _ :: _, [] => none
  | e :: es, c :: cs => if e = c then strip? es cs else none

def stripDigits? : Nat → List Char → Option (List Char)
  | 0, cs => some cs
  | _ + 1, [] => none
  | n + 1, c :: cs => if Text.isDigit c then stripDigits? n cs else none

def tail? (p : SegmentPattern) (cs : List Char) : Option String := do
  let cs ← strip? ['_', '_'] cs
  let cs ← stripDigits? 8 cs
  let cs ← strip? ['T'] cs
  let cs ← stripDigits? 6 cs
  let cs ← strip? ['.'] cs
  if String.ofList cs ∈ p.accepted then some (String.ofList cs) else none

/-- The shortest non-empty stream name with a tail behind it. -/
def stream? (p : SegmentPattern) : List Char → Option (List Char × String)
  | [] => none
  | c :: r =>
    if c = '\n' then none
    else
      match p.tail? r with
      | some extension => some ([c], extension)
      | none => (p.stream? r).map fun s => (c :: s.1, s.2)

def ordinal? (digits : List Char) : Option Nat :=
  if digits ≠ [] ∧ digits.all Text.isAsciiDigit ∧ Text.digitsValue digits < Word.limit64 then
    some (Text.digitsValue digits)
  else none

def keyOfName? (p : SegmentPattern) (name : List Char) : Option StreamKey := do
  let cs ← strip? ['p', 'a', 'r', 't', '_', '_'] name
  let digits := cs.takeWhile Text.isDigit
  let rest ← strip? ['_'] (cs.dropWhile Text.isDigit)
  let (stream, extension) ← p.stream? rest
  let ordinal ← ordinal? digits
  some ⟨ordinal, String.ofList stream, extension⟩

def key? (p : SegmentPattern) (path : Path) : Option StreamKey := do
  let name ← path.fileName?
  let chars ← Utf8.decode? name
  p.keyOfName? chars

def isSegment (p : SegmentPattern) (path : Path) : Bool := (p.key? path).isSome

end SegmentPattern

/-- The name of the file that the capture process creates when it exits. -/
def sentinelName : String := "TCPDUMPW_EXITED"

def Path.isSentinel (p : Path) : Bool := p.fileName? == some (Utf8.ofString sentinelName)

end CaptureExport
