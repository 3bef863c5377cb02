import CaptureExport.Decimal.Binary64
import CaptureExport.Text.Digit

/-! # Doubles with signs and special values

The positional text of a double, and reading one from decimal text with correct rounding.
-/

namespace CaptureExport

inductive Double where
  | nan
  | infinite (negative : Bool)
  | finite (negative : Bool) (magnitude : Binary64)
  deriving DecidableEq, Repr, Inhabited

namespace Double

def display : Double → String
  | .nan => "NaN"
  | .infinite false => "inf"
  | .infinite true => "-inf"
  | .finite negative x => String.ofList (x.shortest negative).positional

def ofDecimal (negative : Bool) (coefficient : Nat) (exponent : Int) : Double :=
  match Binary64.ofDecimal coefficient exponent with
  | some x => .finite negative x
  | none => .infinite negative

def readDigits? (cs : List Char) : Option (Nat × Int × List Char) :=
  let whole := cs.takeWhile Text.isAsciiDigit
  let rest := cs.dropWhile Text.isAsciiDigit
  let (places, rest) :=
    match rest with
    | '.' :: r => (r.takeWhile Text.isAsciiDigit, r.dropWhile Text.isAsciiDigit)
    | r => ([], r)
  if whole.isEmpty && places.isEmpty then none
  else some (Text.digitsValue (whole ++ places), -(places.length : Int), rest)

def readExponent? (cs : List Char) : Option Int :=
  let (negative, digits) : Bool × List Char :=
    match cs with
    | '-' :: r => (true, r)
    | '+' :: r => (false, r)
    | r => (false, r)
  if digits.isEmpty || !digits.all Text.isAsciiDigit then none
  else
    let n : Int := Text.digitsValue digits
    some (if negative then -n else n)

def readMagnitude? (negative : Bool) (cs : List Char) : Option Double :=
  let lower := cs.map Char.toLower
  if lower = "inf".toList ∨ lower = "infinity".toList then some (.infinite negative)
  else if lower = "nan".toList then some .nan
  else do
    let (coefficient, exponent, rest) ← readDigits? cs
    match rest with
    | [] => some (ofDecimal negative coefficient exponent)
    | c :: r =>
      if c = 'e' ∨ c = 'E' then
        let e ← readExponent? r
        some (ofDecimal negative coefficient (exponent + e))
      else none

def ofText? (s : String) : Option Double :=
  match s.toList with
  | '-' :: r => readMagnitude? true r
  | '+' :: r => readMagnitude? false r
  | r => readMagnitude? false r

end Double
end CaptureExport
