import CaptureExport.Gzip.Framing

/-! # Reading compressed blocks

Blocks are stored, or coded with a fixed or a described pair of prefix codes; coded blocks mix
literal octets with copies of earlier output. Bits are taken from each octet least significant
first.
-/

namespace CaptureExport.Gzip

structure Source where
  rest : Bytes
  held : Nat
  count : Nat

namespace Source

def bit? (s : Source) : Option (Nat × Source) :=
  match s.count, s.rest with
  | 0, [] => none
  | 0, b :: r => some (b.toNat % 2, ⟨r, b.toNat / 2, 7⟩)
  | n + 1, r => some (s.held % 2, ⟨r, s.held / 2, n⟩)

def bits? : Nat → Source → Option (Nat × Source)
  | 0, s => some (0, s)
  | n + 1, s => do
    let (b, s) ← s.bit?
    let (v, s) ← bits? n s
    some (b + 2 * v, s)

def align (s : Source) : Source := ⟨s.rest, 0, 0⟩

end Source

/-- The codes of one length: the first code and the symbols in the order of their codes. -/
structure CodeGroup where
  first : Nat
  symbols : Array Nat

/-- The groups of the canonical prefix code with the given code lengths, from length one on. -/
def codeGroups (lengths : List Nat) : List CodeGroup :=
  let symbols (n : Nat) : Array Nat :=
    ((lengths.zipIdx).filterMap fun p => if p.1 = n then some p.2 else none).toArray
  let rec build : Nat → Nat → Nat → List CodeGroup
    | 0, _, _ => []
    | k + 1, n, first =>
      let here := symbols n
      ⟨first, here⟩ :: build k (n + 1) ((first + here.size) * 2)
  build 15 1 0

def symbol? : List CodeGroup → Nat → Source → Option (Nat × Source)
  | [], _, _ => none
  | g :: gs, code, s => do
    let (b, s) ← s.bit?
    let code := 2 * code + b
    if g.first ≤ code then
      match g.symbols[code - g.first]? with
      | some symbol => some (symbol, s)
      | none => symbol? gs code s
    else symbol? gs code s

def lengthBases : Array (Nat × Nat) :=
  #[(3, 0), (4, 0), (5, 0), (6, 0), (7, 0), (8, 0), (9, 0), (10, 0), (11, 1), (13, 1), (15, 1),
    (17, 1), (19, 2), (23, 2), (27, 2), (31, 2), (35, 3), (43, 3), (51, 3), (59, 3), (67, 4),
    (83, 4), (99, 4), (115, 4), (131, 5), (163, 5), (195, 5), (227, 5), (258, 0)]

def distanceBases : Array (Nat × Nat) :=
  #[(1, 0), (2, 0), (3, 0), (4, 0), (5, 1), (7, 1), (9, 2), (13, 2), (17, 3), (25, 3), (33, 4),
    (49, 4), (65, 5), (97, 5), (129, 6), (193, 6), (257, 7), (385, 7), (513, 8), (769, 8),
    (1025, 9), (1537, 9), (2049, 10), (3073, 10), (4097, 11), (6145, 11), (8193, 12),
    (12289, 12), (16385, 13), (24577, 13)]

def extended? (table : Array (Nat × Nat)) (index : Nat) (s : Source) : Option (Nat × Source) := do
  let (base, extra) ← table[index]?
  let (v, s) ← s.bits? extra
  some (base + v, s)

def copyBack : Nat → Nat → Array UInt8 → Option (Array UInt8)
  | 0, _, out => some out
  | n + 1, distance, out =>
    if distance = 0 ∨ out.size < distance then none
    else copyBack n distance (out.push (out.getD (out.size - distance) 0))

/-- A coded block up to its end mark. Every symbol takes at least one bit, which bounds the
number of symbols. -/
def coded? (literals distances : List CodeGroup) :
    Nat → Source → Array UInt8 → Option (Source × Array UInt8)
  | 0, _, _ => none
  | fuel + 1, s, out => do
    let (v, s) ← symbol? literals 0 s
    if v < 256 then coded? literals distances fuel s (out.push (UInt8.ofNat v))
    else if v = 256 then some (s, out)
    else
      let (n, s) ← extended? lengthBases (v - 257) s
      let (d, s) ← symbol? distances 0 s
      let (distance, s) ← extended? distanceBases d s
      let out ← copyBack n distance out
      coded? literals distances fuel s out

def fixedLiterals : List Nat :=
  List.replicate 144 8 ++ List.replicate 112 9 ++ List.replicate 24 7 ++ List.replicate 8 8

def lengthOrder : List Nat := [16, 17, 18, 0, 8, 7, 9, 6, 10, 5, 11, 4, 12, 3, 13, 2, 14, 1, 15]

def lengths? (codes : List CodeGroup) (wanted : Nat) :
    Nat → List Nat → Source → Option (List Nat × Source)
  | 0, _, _ => none
  | fuel + 1, done, s =>
    if wanted ≤ done.length then
      if done.length = wanted then some (done.reverse, s) else none
    else do
      let (v, s) ← symbol? codes 0 s
      if v < 16 then lengths? codes wanted fuel (v :: done) s
      else if v = 16 then
        let last ← done.head?
        let (n, s) ← s.bits? 2
        lengths? codes wanted fuel (List.replicate (n + 3) last ++ done) s
      else if v = 17 then
        let (n, s) ← s.bits? 3
        lengths? codes wanted fuel (List.replicate (n + 3) 0 ++ done) s
      else
        let (n, s) ← s.bits? 7
        lengths? codes wanted fuel (List.replicate (n + 11) 0 ++ done) s

def triples? : Nat → Source → Option (List Nat × Source)
  | 0, s => some ([], s)
  | n + 1, s => do
    let (v, s) ← s.bits? 3
    let (vs, s) ← triples? n s
    some (v :: vs, s)

def described? (s : Source) : Option ((List CodeGroup × List CodeGroup) × Source) := do
  let (literals, s) ← s.bits? 5
  let (distances, s) ← s.bits? 5
  let (given, s) ← s.bits? 4
  let (sizes, s) ← triples? (given + 4) s
  let pairs := lengthOrder.zip sizes
  let table := (List.range 19).map fun i => ((pairs.find? fun p => p.1 = i).map Prod.snd).getD 0
  let wanted := literals + distances + 258
  let (all, s) ← lengths? (codeGroups table) wanted (wanted + 1) [] s
  some ((codeGroups (all.take (literals + 257)), codeGroups (all.drop (literals + 257))), s)

def stored? (s : Source) (out : Array UInt8) : Option (Source × Array UInt8) :=
  match s.rest with
  | a :: b :: c :: d :: r =>
    let n := ofLittleEndian [a, b]
    if n + ofLittleEndian [c, d] = 0xFFFF ∧ n ≤ r.length then
      some (⟨r.drop n, 0, 0⟩, (r.take n).foldl Array.push out)
    else none
  | _ => none

/-- Blocks up to the final one. Every block takes at least three bits. -/
def inflate? : Nat → Source → Array UInt8 → Option (Source × Array UInt8)
  | 0, _, _ => none
  | fuel + 1, s, out => do
    let (final, s) ← s.bit?
    let (kind, s) ← s.bits? 2
    let bound := 8 * s.rest.length + 9
    let (s, out) ←
      if kind = 0 then stored? s.align out
      else if kind = 1 then
        coded? (codeGroups fixedLiterals) (codeGroups (List.replicate 30 5)) bound s out
      else if kind = 2 then do
        let (codes, s) ← described? s
        coded? codes.1 codes.2 bound s out
      else none
    if final = 1 then some (s, out) else inflate? fuel s out

/-- The content of a stream that is complete: the header of a stream without optional fields,
blocks, and the matching trailer with nothing behind it. -/
def decode? (stream : Bytes) : Option Bytes := do
  if stream.take 4 ≠ header.take 4 ∨ stream.length < 18 then none
  else
    let body := stream.drop 10
    let (s, out) ← inflate? (3 * body.length + 1) ⟨body, 0, 0⟩ #[]
    let content := out.toList
    if s.rest = trailer content then some content else none

end CaptureExport.Gzip
