import CaptureExport.Text.Digit
import CaptureExport.Word

/-! # Reading numbers -/

namespace CaptureExport.Text

def natural? (cs : List Char) : Option Nat :=
  let digits :=
    match cs with
    | '+' :: r => r
    | r => r
  if digits.isEmpty || !digits.all isAsciiDigit then none else some (digitsValue digits)

def naturalBelow? (limit : Nat) (cs : List Char) : Option Nat := do
  let n ← natural? cs
  if n < limit then some n else none

def word? (cs : List Char) : Option Nat := naturalBelow? Word.limit64 cs

end CaptureExport.Text
