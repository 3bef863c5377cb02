import CaptureExport.Text.Printable
import CaptureExport.Text.Utf8

/-! # Quoted text

A text between double quotes, in which quotes, backslashes and the usual controls have short
escapes and every other character without a visible form is written by its code point.
-/

namespace CaptureExport.Text

def hexDigits (n : Nat) : List Char := Nat.toDigits 16 n

def quoteChar (c : Char) : List Char :=
  if c = '\x00' then ['\\', '0']
  else if c = '\t' then ['\\', 't']
  else if c = '\r' then ['\\', 'r']
  else if c = '\n' then ['\\', 'n']
  else if c = '\\' then ['\\', '\\']
  else if c = '"' then ['\\', '"']
  else if isPrintable c then [c]
  else ['\\', 'u', '{'] ++ hexDigits c.toNat ++ ['}']

def quoted (s : String) : String :=
  String.ofList ('"' :: s.toList.flatMap quoteChar ++ ['"'])

def hexOctet (b : UInt8) : List Char :=
  let digit (n : Nat) : Char := if n < 10 then Char.ofNat (48 + n) else Char.ofNat (55 + n)
  [digit (b.toNat / 16), digit (b.toNat % 16)]

/-- Octets in quotes: characters are quoted as in a text, and the octets of ill-formed pieces are
written by their values. -/
def quotedBytes (bs : Bytes) : String :=
  String.ofList ('"' :: (Utf8.pieces bs).flatMap piece ++ ['"'])
where
  /-- The quoted form of one piece. -/
  piece : Utf8.Piece → List Char
    | .char c => quoteChar c
    | .illFormed octets => octets.flatMap fun b => ['\\', 'x'] ++ hexOctet b

end CaptureExport.Text
