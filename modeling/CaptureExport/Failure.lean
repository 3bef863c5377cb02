import CaptureExport.Text.Split

/-! # Failures with causes

A failure that ends the program is reported with everything that led to it, the outermost message
first.
-/

namespace CaptureExport

structure Failure where
  message : String
  causes : List String := []
  deriving DecidableEq, Repr

namespace Failure

def inline (f : Failure) : String := ": ".intercalate (f.message :: f.causes)

def indented (indent s : String) : String :=
  ("\n" ++ indent).intercalate ((Text.splitAt '\n' s.toList).map String.ofList)

def numbered (n : Nat) (cause : String) : String :=
  let digits := Nat.toDigits 10 n
  String.ofList (List.replicate (5 - digits.length) ' ' ++ digits) ++ ": " ++
    indented "       " cause

def causeLines : List String → List String
  | [cause] => ["    " ++ indented "    " cause]
  | causes => (causes.zipIdx).map fun c => numbered c.2 c.1

def report (f : Failure) : String :=
  "Error: " ++ f.message ++
    (if f.causes.isEmpty then ""
      else "\n\nCaused by:\n" ++ "\n".intercalate (causeLines f.causes)) ++ "\n"

end Failure
end CaptureExport
