import CaptureExport.Decimal.Double
import CaptureExport.Json.Basic
import CaptureExport.Text.Quoted
import CaptureExport.Word

/-! # Field values

A field of a record carries a text, an integer of one of four widths, a truth value, or some
other value of which only the text is known.
-/

namespace CaptureExport.Log

inductive IntegerKind where
  | word
  | signedWord
  | wide
  | signedWide
  deriving DecidableEq, Repr

def IntegerKind.least : IntegerKind → Int
  | word | wide => 0
  | signedWord => -Word.limit63
  | signedWide => -Word.limit127

def IntegerKind.above : IntegerKind → Int
  | word => Word.limit64
  | signedWord => Word.limit63
  | wide => Word.limit128
  | signedWide => Word.limit127

inductive Value where
  | text (s : String)
  | integer (kind : IntegerKind) (n : Int)
  | truth (b : Bool)
  | double (x : Double)
  | char (c : Char)
  | shown (s : String)
  | quoted (s : String)
  | absent
  deriving DecidableEq, Repr

namespace Value

def nat (n : Nat) : Value := .integer .word n

def int (n : Int) : Value := .integer .signedWord n

def display : Value → String
  | .text s => s
  | .integer _ n => String.ofList (Decimal.intText n)
  | .truth b => if b then "true" else "false"
  | .double x => x.display
  | .char c => String.ofList [c]
  | .shown s => s
  | .quoted s => Text.quoted s
  | .absent => "None"

def text? : Value → Option String
  | .text s => some s
  | _ => none

def word? : Value → Option Int
  | .integer _ n => if 0 ≤ n ∧ n < Word.limit64 then some n else none
  | _ => none

def signedWord? : Value → Option Int
  | .integer _ n => if -Word.limit63 ≤ n ∧ n < Word.limit63 then some n else none
  | _ => none

def truth? : Value → Option Bool
  | .truth b => some b
  | _ => none

/-- The value in a line: a text, an integer that fits a word, a truth value, and the printed text
of all else. -/
def toJson (v : Value) : Json :=
  match v.text?, v.word?, v.signedWord?, v.truth? with
  | some s, _, _, _ => .str s
  | none, some n, _, _ => .int n
  | none, none, some n, _ => .int n
  | none, none, none, some b => .bool b
  | none, none, none, none => .str v.display

end Value
end CaptureExport.Log
