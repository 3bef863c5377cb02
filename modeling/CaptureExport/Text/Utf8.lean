/-! # Octets and UTF-8

Texts are encoded as UTF-8. Reading walks the octets once with a small machine that knows which
octets may follow. It yields one piece per character and one per maximal ill-formed sequence, so
that the strict and the forgiving readings are views of the same walk.
-/

namespace CaptureExport

abbrev Bytes := List UInt8

namespace Utf8

def encode (cs : List Char) : Bytes := cs.flatMap String.utf8EncodeChar

def ofString (s : String) : Bytes := encode s.toList

inductive Piece where
  | char (c : Char)
  | illFormed (octets : Bytes)
  deriving DecidableEq, Repr

/-- A character of which some octets are still missing: the octets taken and the bits read so
far, the number of missing octets, and the bounds of the next one. -/
structure Pending where
  taken : Bytes
  code : Nat
  missing : Nat
  low : UInt8
  high : UInt8

/-- Reads the first octet of a character. The bounds of the second octet exclude overlong forms,
surrogates and code points above `0x10FFFF`. -/
def start (b : UInt8) : Piece ⊕ Pending :=
  if b < 0x80 then .inl (.char (Char.ofNat b.toNat))
  else if b < 0xC2 then .inl (.illFormed [b])
  else if b < 0xE0 then .inr ⟨[b], b.toNat % 32, 1, 0x80, 0xBF⟩
  else if b = 0xE0 then .inr ⟨[b], 0, 2, 0xA0, 0xBF⟩
  else if b = 0xED then .inr ⟨[b], 13, 2, 0x80, 0x9F⟩
  else if b < 0xF0 then .inr ⟨[b], b.toNat % 16, 2, 0x80, 0xBF⟩
  else if b = 0xF0 then .inr ⟨[b], 0, 3, 0x90, 0xBF⟩
  else if b < 0xF4 then .inr ⟨[b], b.toNat % 8, 3, 0x80, 0xBF⟩
  else if b = 0xF4 then .inr ⟨[b], 4, 3, 0x80, 0x8F⟩
  else .inl (.illFormed [b])

/-- Walks the octets. An octet that does not continue a pending character ends it as ill-formed
and is read again as a first octet. -/
def piecesFrom : Option Pending → Bytes → List Piece
  | none, [] => []
  | some p, [] => [.illFormed p.taken]
  | none, b :: r =>
    match start b with
    | .inl piece => piece :: piecesFrom none r
    | .inr p => piecesFrom (some p) r
  | some p, b :: r =>
    if p.low ≤ b ∧ b ≤ p.high then
      let code := 64 * p.code + b.toNat % 64
      if p.missing ≤ 1 then .char (Char.ofNat code) :: piecesFrom none r
      else piecesFrom (some ⟨p.taken ++ [b], code, p.missing - 1, 0x80, 0xBF⟩) r
    else
      match start b with
      | .inl piece => .illFormed p.taken :: piece :: piecesFrom none r
      | .inr q => .illFormed p.taken :: piecesFrom (some q) r

def pieces (bs : Bytes) : List Piece := piecesFrom none bs

def Piece.char? : Piece → Option Char
  | .char c => some c
  | .illFormed _ => none

def decode? (bs : Bytes) : Option (List Char) := (pieces bs).mapM Piece.char?

def text? (bs : Bytes) : Option String := (decode? bs).map String.ofList

/-- The forgiving reading: every ill-formed piece becomes the replacement character. -/
def lossy (bs : Bytes) : String :=
  String.ofList ((pieces bs).map fun p => p.char?.getD '\uFFFD')

end Utf8
end CaptureExport
