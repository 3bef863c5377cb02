import CaptureExport.Decimal.Binary64
import CaptureExport.Json.Basic
import CaptureExport.Word

/-! # Numbers as a store of machine numbers holds them

Integers are exact from `-2 ^ 63` below `2 ^ 64`; every other number is a double. A double is
formed from the leading digits that fit 64 bits, scaled by a power of ten with one rounding for
the digits and one for each scaling.
-/

namespace CaptureExport.Json

def isExact (n : Int) : Bool := -Word.limit63 ≤ n && n < Word.limit64

def leading (coefficient : Nat) (exponent : Int) : Nat × Int :=
  if coefficient < Word.limit64 then (coefficient, exponent)
  else leading (coefficient / 10) (exponent + 1)
termination_by coefficient
decreasing_by simp only [Word.limit64] at *; omega

/-- Divides by `10 ^ 308` until the exponent is at least `-308`, then scales once. -/
def scaleDouble : Nat → Binary64 → Int → Option Binary64
  | 0, _, _ => none
  | fuel + 1, x, e => do
    if e < -308 then
      if x.mantissa = 0 then some x
      else
        let p ← Binary64.ofDecimal 1 308
        let y ← x.div p
        scaleDouble fuel y (e + 308)
    else
      let p ← Binary64.ofDecimal 1 e.natAbs
      if 0 ≤ e then x.mul p else x.div p

def storedDecimal (negative : Bool) (coefficient : Nat) (exponent : Int) : Decimal :=
  let l := leading coefficient exponent
  let stored := do
    let x ← Binary64.ofRatio l.1 1
    scaleDouble (l.2.natAbs / 308 + 2) x l.2
  match stored with
  | some x => x.shortest negative
  | none => Decimal.ofParts negative coefficient exponent

mutual

def stored : Json → Json
  | .int n => if isExact n then .int n else .decimal (storedDecimal (n < 0) n.natAbs 0)
  | .decimal d => .decimal (storedDecimal d.negative d.coefficient d.exponent)
  | .arr items => .arr (storedItems items)
  | .obj members => .obj (storedMembers members)
  | j => j

def storedItems : List Json → List Json
  | [] => []
  | x :: xs => stored x :: storedItems xs

def storedMembers : List (String × Json) → List (String × Json)
  | [] => []
  | (k, v) :: r => (k, stored v) :: storedMembers r

end

end CaptureExport.Json
