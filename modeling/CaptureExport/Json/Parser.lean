import CaptureExport.Json.Basic
import CaptureExport.Text.Digit

/-! # Reading JSON

A recursive-descent reader of the whole grammar. Every function returns the value read with the
characters behind it; the depth of recursion is bounded by the length of the text.
-/

namespace CaptureExport.Json

def isSpace (c : Char) : Bool := c = ' ' || c = '\n' || c = '\t' || c = '\r'

def skipSpace (cs : List Char) : List Char := cs.dropWhile isSpace

def hexValue? (c : Char) : Option Nat :=
  if '0' ≤ c ∧ c ≤ '9' then some (c.toNat - 48)
  else if 'a' ≤ c ∧ c ≤ 'f' then some (c.toNat - 87)
  else if 'A' ≤ c ∧ c ≤ 'F' then some (c.toNat - 55)
  else none

def readUnit : List Char → Option (Nat × List Char)
  | a :: b :: c :: d :: r => do
    let a ← hexValue? a
    let b ← hexValue? b
    let c ← hexValue? c
    let d ← hexValue? d
    some (4096 * a + 256 * b + 16 * c + d, r)
  | _ => none

/-- A character written by its number, as one unit or as a surrogate pair. -/
def readNumbered (cs : List Char) : Option (Char × List Char) := do
  let (high, r) ← readUnit cs
  if 0xD800 ≤ high ∧ high < 0xDC00 then
    match r with
    | '\\' :: 'u' :: r =>
      let (low, r) ← readUnit r
      if 0xDC00 ≤ low ∧ low < 0xE000 then
        some (Char.ofNat (0x10000 + 0x400 * (high - 0xD800) + (low - 0xDC00)), r)
      else none
    | _ => none
  else if 0xDC00 ≤ high ∧ high < 0xE000 then none
  else some (Char.ofNat high, r)

def shortEscape? (c : Char) : Option Char :=
  if c = '"' ∨ c = '\\' ∨ c = '/' then some c
  else if c = 'b' then some '\x08'
  else if c = 'f' then some '\x0c'
  else if c = 'n' then some '\n'
  else if c = 'r' then some '\r'
  else if c = 't' then some '\t'
  else none

def readChars : Nat → List Char → Option (List Char × List Char)
  | 0, _ => none
  | _ + 1, '"' :: r => some ([], r)
  | n + 1, '\\' :: 'u' :: r => do
    let (c, r) ← readNumbered r
    let (cs, r) ← readChars n r
    some (c :: cs, r)
  | n + 1, '\\' :: e :: r => do
    let c ← shortEscape? e
    let (cs, r) ← readChars n r
    some (c :: cs, r)
  | n + 1, c :: r =>
    if c.toNat < 0x20 then none
    else do
      let (cs, r) ← readChars n r
      some (c :: cs, r)
  | _ + 1, [] => none

def readString (cs : List Char) : Option (String × List Char) := do
  let (s, r) ← readChars (cs.length + 1) cs
  some (String.ofList s, r)

def readExponent (cs : List Char) : Option (Int × List Char) :=
  match cs with
  | e :: r =>
    if e = 'e' ∨ e = 'E' then
      let signed : Bool × List Char :=
        match r with
        | '-' :: r => (true, r)
        | '+' :: r => (false, r)
        | r => (false, r)
      let digits := signed.2.takeWhile Text.isAsciiDigit
      let rest := signed.2.dropWhile Text.isAsciiDigit
      if digits.isEmpty then none
      else
        let n : Int := Text.digitsValue digits
        some (if signed.1 then -n else n, rest)
    else some (0, cs)
  | [] => some (0, [])

/-- A number without its sign. One without a point or an exponent is an integer, except for a
negative zero, which only a decimal can hold. -/
def readNumber (negative : Bool) (cs : List Char) : Option (Json × List Char) := do
  let whole := cs.takeWhile Text.isAsciiDigit
  let rest := cs.dropWhile Text.isAsciiDigit
  if whole.isEmpty ∨ (whole.head? = some '0' ∧ whole.length ≠ 1) then none
  else
    match rest with
    | '.' :: r =>
      let places := r.takeWhile Text.isAsciiDigit
      if places.isEmpty then none
      else
        let (e, r) ← readExponent (r.dropWhile Text.isAsciiDigit)
        some (.decimal (Decimal.ofParts negative (Text.digitsValue (whole ++ places))
          (e - places.length)), r)
    | c :: r =>
      if c = 'e' ∨ c = 'E' then
        let (e, r) ← readExponent (c :: r)
        some (.decimal (Decimal.ofParts negative (Text.digitsValue whole) e), r)
      else some (integer negative (Text.digitsValue whole), c :: r)
    | [] => some (integer negative (Text.digitsValue whole), [])
where
  /-- A number with neither point nor exponent. -/
  integer (negative : Bool) (n : Nat) : Json :=
    if negative then
      if n = 0 then .decimal (Decimal.ofParts true 0 0) else .int (-n)
    else .int n

mutual

def readValue : Nat → List Char → Option (Json × List Char)
  | 0, _ => none
  | n + 1, cs =>
    match skipSpace cs with
    | 'n' :: 'u' :: 'l' :: 'l' :: r => some (.null, r)
    | 't' :: 'r' :: 'u' :: 'e' :: r => some (.bool true, r)
    | 'f' :: 'a' :: 'l' :: 's' :: 'e' :: r => some (.bool false, r)
    | '"' :: r => (readString r).map fun p => (.str p.1, p.2)
    | '[' :: r =>
      match skipSpace r with
      | ']' :: r => some (.arr [], r)
      | r => do
        let (x, r) ← readValue n r
        let (xs, r) ← readItems n r
        some (.arr (x :: xs), r)
    | '{' :: r =>
      match skipSpace r with
      | '}' :: r => some (.obj [], r)
      | r => do
        let (m, r) ← readMember n r
        let (ms, r) ← readMembers n r
        some (object (m :: ms), r)
    | '-' :: r => readNumber true r
    | r => readNumber false r

def readItems : Nat → List Char → Option (List Json × List Char)
  | 0, _ => none
  | n + 1, cs =>
    match skipSpace cs with
    | ']' :: r => some ([], r)
    | ',' :: r => do
      let (x, r) ← readValue n r
      let (xs, r) ← readItems n r
      some (x :: xs, r)
    | _ => none

def readMember : Nat → List Char → Option ((String × Json) × List Char)
  | 0, _ => none
  | n + 1, cs =>
    match skipSpace cs with
    | '"' :: r => do
      let (k, r) ← readString r
      match skipSpace r with
      | ':' :: r =>
        let (v, r) ← readValue n r
        some ((k, v), r)
      | _ => none
    | _ => none

def readMembers : Nat → List Char → Option (List (String × Json) × List Char)
  | 0, _ => none
  | n + 1, cs =>
    match skipSpace cs with
    | '}' :: r => some ([], r)
    | ',' :: r => do
      let (m, r) ← readMember n r
      let (ms, r) ← readMembers n r
      some (m :: ms, r)
    | _ => none

end

def ofChars? (cs : List Char) : Option Json :=
  match readValue (2 * cs.length + 2) cs with
  | some (j, r) => if (skipSpace r).isEmpty then some j else none
  | none => none

def ofText? (s : String) : Option Json := ofChars? s.toList

end CaptureExport.Json
