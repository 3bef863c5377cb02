/-! # Decimal numbers

A sign, a coefficient and a power of ten, in lowest terms. The sign of zero is kept.
-/

namespace CaptureExport

/-- The number `± coefficient · 10 ^ exponent`. The coefficient does not end in a zero, and zero
has exponent zero, so that two decimals are equal exactly when they are written alike. -/
structure Decimal where
  negative : Bool
  coefficient : Nat
  exponent : Int
  canonical : if coefficient = 0 then exponent = 0 else coefficient % 10 ≠ 0

namespace Decimal

instance : DecidableEq Decimal := fun a b =>
  if h : a.negative = b.negative ∧ a.coefficient = b.coefficient ∧ a.exponent = b.exponent then
    .isTrue (by cases a; cases b; simp_all)
  else .isFalse (by rintro rfl; simp at h)

def reduce (coefficient : Nat) (exponent : Int) : Nat × Int :=
  if coefficient ≠ 0 ∧ coefficient % 10 = 0 then reduce (coefficient / 10) (exponent + 1)
  else if coefficient = 0 then (0, 0)
  else (coefficient, exponent)
termination_by coefficient
decreasing_by omega

theorem reduce_canonical (n : Nat) (e : Int) :
    if (reduce n e).1 = 0 then (reduce n e).2 = 0 else (reduce n e).1 % 10 ≠ 0 := by
  fun_induction reduce n e with
  | case1 => assumption
  | case2 => simp
  | case3 n e h hz => simp only [hz, if_false]; exact fun hm => h ⟨hz, hm⟩

def ofParts (negative : Bool) (coefficient : Nat) (exponent : Int) : Decimal :=
  ⟨negative, (reduce coefficient exponent).1, (reduce coefficient exponent).2,
    reduce_canonical coefficient exponent⟩

def digits (d : Decimal) : List Char := Nat.toDigits 10 d.coefficient

def pointAt (d : Decimal) : Int := d.digits.length + d.exponent

def sign (d : Decimal) : List Char := if d.negative then ['-'] else []

def pointed (digits : List Char) (point : Int) : List Char :=
  if point ≤ 0 then ['0', '.'] ++ List.replicate (-point).toNat '0' ++ digits
  else if digits.length ≤ point then
    digits ++ List.replicate (point.toNat - digits.length) '0' ++ ['.', '0']
  else digits.take point.toNat ++ '.' :: digits.drop point.toNat

def positional (d : Decimal) : List Char :=
  if d.coefficient = 0 then d.sign ++ ['0']
  else if d.digits.length ≤ d.pointAt then
    d.sign ++ d.digits ++ List.replicate d.exponent.toNat '0'
  else d.sign ++ pointed d.digits d.pointAt

def intText (n : Int) : List Char :=
  if n < 0 then '-' :: Nat.toDigits 10 n.natAbs else Nat.toDigits 10 n.natAbs

/-- The form in which a decimal point or an exponent always appears: positional for numbers from
`10 ^ -5` below `10 ^ 16`, and one digit before the point with an exponent otherwise. -/
def general (d : Decimal) : List Char :=
  if d.coefficient = 0 then d.sign ++ ['0', '.', '0']
  else if -5 < d.pointAt ∧ d.pointAt ≤ 16 then d.sign ++ pointed d.digits d.pointAt
  else
    match d.digits with
    | [c] => d.sign ++ c :: 'e' :: intText (d.pointAt - 1)
    | c :: cs => d.sign ++ c :: '.' :: cs ++ 'e' :: intText (d.pointAt - 1)
    | [] => d.sign

end Decimal
end CaptureExport
