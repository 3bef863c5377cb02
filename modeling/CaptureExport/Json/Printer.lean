import CaptureExport.Json.Basic

/-! # Writing JSON

The compact form, on one line: no blanks between tokens, short escapes for quotes, backslashes
and the usual controls, numbered escapes for the other controls, and nothing else escaped.
-/

namespace CaptureExport.Json

def hexDigit (n : Nat) : Char :=
  if n < 10 then Char.ofNat (48 + n) else Char.ofNat (87 + n)

def escapeChar (c : Char) : List Char :=
  if c = '"' then ['\\', '"']
  else if c = '\\' then ['\\', '\\']
  else if c = '\n' then ['\\', 'n']
  else if c = '\r' then ['\\', 'r']
  else if c = '\t' then ['\\', 't']
  else if c = '\x08' then ['\\', 'b']
  else if c = '\x0c' then ['\\', 'f']
  else if c.toNat < 0x20 then
    ['\\', 'u', '0', '0', hexDigit (c.toNat / 16), hexDigit (c.toNat % 16)]
  else [c]

def writeString (s : String) : List Char :=
  '"' :: s.toList.flatMap escapeChar ++ ['"']

mutual

def write : Json → List Char
  | .null => ['n', 'u', 'l', 'l']
  | .bool true => ['t', 'r', 'u', 'e']
  | .bool false => ['f', 'a', 'l', 's', 'e']
  | .int n => Decimal.intText n
  | .decimal d => d.general
  | .str s => writeString s
  | .arr [] => ['[', ']']
  | .arr (x :: xs) => '[' :: write x ++ writeItems xs
  | .obj [] => ['{', '}']
  | .obj ((k, v) :: r) => '{' :: writeString k ++ ':' :: write v ++ writeMembers r

def writeItems : List Json → List Char
  | [] => [']']
  | x :: xs => ',' :: write x ++ writeItems xs

def writeMembers : List (String × Json) → List Char
  | [] => ['}']
  | (k, v) :: r => ',' :: writeString k ++ ':' :: write v ++ writeMembers r

end

def toText (j : Json) : String := String.ofList (write j)

end CaptureExport.Json
