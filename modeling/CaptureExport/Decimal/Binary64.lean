import CaptureExport.Decimal.Basic

/-! # Double precision

The non-negative finite numbers of the binary interchange format with 53 significant bits:
rounding a quotient to the nearest of them, and the shortest decimal that rounds back to one.
All arithmetic is exact.
-/

namespace CaptureExport

structure Binary64 where
  mantissa : Nat
  exponent : Int
  deriving DecidableEq, Repr, Inhabited

namespace Binary64

def mantissaLimit : Nat := 0x20000000000000

def zero : Binary64 := ⟨0, -1074⟩

def divNearest (num den : Nat) : Nat :=
  let q := num / den
  let r := num % den
  if 2 * r < den then q else if den < 2 * r then q + 1 else q + q % 2

/-- `num · 2 ^ -e / den` as a quotient of natural numbers. -/
def scaled (num den : Nat) (e : Int) : Nat × Nat :=
  if 0 ≤ e then (num, den <<< e.toNat) else (num <<< (-e).toNat, den)

/-- The double nearest to a quotient, a half going to the even mantissa; `none` when the
quotient is too large for the format. -/
def ofRatio (num den : Nat) : Option Binary64 :=
  if num = 0 then some zero else
  let first := max ((num.log2 : Int) - den.log2 - 53) (-1074)
  let s := scaled num den first
  let e := if s.1 / s.2 < mantissaLimit then first else first + 1
  let t := scaled num den e
  let m := divNearest t.1 t.2
  let r : Binary64 := if m < mantissaLimit then ⟨m, e⟩ else ⟨m / 2, e + 1⟩
  if r.exponent ≤ 971 then some r else none

def ratio (x : Binary64) : Nat × Nat :=
  if 0 ≤ x.exponent then (x.mantissa <<< x.exponent.toNat, 1)
  else (x.mantissa, 1 <<< (-x.exponent).toNat)

def decimalRatio (coefficient : Nat) (exponent : Int) : Nat × Nat :=
  if 0 ≤ exponent then (coefficient * Nat.pow 10 exponent.toNat, 1)
  else (coefficient, Nat.pow 10 (-exponent).toNat)

/-- The double nearest to a decimal. Powers of ten that are too large or too small for every
double are not computed. -/
def ofDecimal (coefficient : Nat) (exponent : Int) : Option Binary64 :=
  if coefficient = 0 then some zero
  else if 400 < exponent then none
  else if exponent < -401 - (coefficient.log2 : Int) then some zero
  else
    let r := decimalRatio coefficient exponent
    ofRatio r.1 r.2

def mul (x y : Binary64) : Option Binary64 :=
  ofRatio (x.ratio.1 * y.ratio.1) (x.ratio.2 * y.ratio.2)

def div (x y : Binary64) : Option Binary64 :=
  ofRatio (x.ratio.1 * y.ratio.2) (x.ratio.2 * y.ratio.1)

def roundsTo (x : Binary64) (coefficient : Nat) (exponent : Int) : Bool :=
  ofDecimal coefficient exponent == some x

def neighbours (x : Binary64) (exponent : Int) : List Nat :=
  let v := x.ratio
  let g := decimalRatio 1 exponent
  let num := v.1 * g.2
  let den := v.2 * g.1
  let low := num / den
  if 2 * (num % den) ≤ den then [low, low + 1] else [low + 1, low]

/-- Tries ever finer grids, at most `fuel` of them, for a decimal that rounds to the double. -/
def search (x : Binary64) : Nat → Int → Nat × Int
  | 0, e => ((neighbours x e).headD 0, e)
  | fuel + 1, e =>
    match (neighbours x e).find? fun c => roundsTo x c e with
    | some c => (c, e)
    | none => search x fuel (e - 1)

def gridAbove (x : Binary64) : Int :=
  (((x.mantissa.log2 : Int) + x.exponent) * 30103) / 100000 + 1

/-- The decimal with the fewest digits that rounds to the double, the nearest one among those. -/
def shortest (negative : Bool) (x : Binary64) : Decimal :=
  if x.mantissa = 0 then Decimal.ofParts negative 0 0
  else
    let r := search x 20 (gridAbove x)
    Decimal.ofParts negative r.1 r.2

end Binary64
end CaptureExport
