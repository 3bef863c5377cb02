import CaptureExport.Segment.Pattern

/-! # The expression of a pattern

The segment names of a pattern as a regular expression that captures the ordinal, the stream and
the extension. An expression is read with priorities: of all ways to read a whole text the first
one counts, in which lazy groups take as little as they can.
-/

namespace CaptureExport

inductive CharClass where
  | only (c : Char)
  | digit
  | any
  deriving DecidableEq, Repr

namespace CharClass

def accepts : CharClass → Char → Bool
  | only d, c => c = d
  | digit, c => Text.isDigit c
  | any, c => c ≠ '\n'

def text : CharClass → String
  | only c => SegmentPattern.escape (String.ofList [c])
  | digit => "\\d"
  | any => "."

end CharClass

/-- A part of an expression. The lazy runs and the choices are its groups. -/
inductive Term where
  | one (c : CharClass)
  | times (n : Nat) (c : CharClass)
  | few (c : CharClass)
  | choice (texts : List String)
  deriving DecidableEq, Repr

def Term.text : Term → String
  | one c => c.text
  | times n c => c.text ++ "\x7b" ++ n.repr ++ "\x7d"
  | few c => "(" ++ c.text ++ "+?)"
  | choice texts => "(" ++ "|".intercalate (texts.map SegmentPattern.escape) ++ ")"

namespace Expression

def text (ts : List Term) : String := "^" ++ String.join (ts.map Term.text) ++ "$"

def runs (c : CharClass) : List Char → List (List Char × List Char)
  | [] => []
  | d :: cs => if c.accepts d then ([d], cs) :: (runs c cs).map fun r => (d :: r.1, r.2) else []

/-- What the groups take in the ways to read a whole text, those of higher priority first. -/
def readings : List Term → List Char → List (List (List Char))
  | [], cs => if cs = [] then [[]] else []
  | .one c :: ts, cs =>
    match cs with
    | [] => []
    | d :: cs => if c.accepts d then readings ts cs else []
  | .times n c :: ts, cs =>
    if (cs.take n).length = n ∧ (cs.take n).all c.accepts then readings ts (cs.drop n) else []
  | .few c :: ts, cs => (runs c cs).flatMap fun r => (readings ts r.2).map (r.1 :: ·)
  | .choice texts :: ts, cs =>
    texts.flatMap fun t =>
      match SegmentPattern.strip? t.toList cs with
      | none => []
      | some r => (readings ts r).map (t.toList :: ·)

def captures? (ts : List Term) (cs : List Char) : Option (List (List Char)) :=
  (readings ts cs).head?

end Expression

namespace SegmentPattern

def tailTerms (p : SegmentPattern) : List Term :=
  [.one (.only '_'), .one (.only '_'), .times 8 .digit, .one (.only 'T'), .times 6 .digit,
    .one (.only '.'), .choice p.accepted]

def terms (p : SegmentPattern) : List Term :=
  ['p', 'a', 'r', 't', '_', '_'].map (.one ∘ .only) ++
    .few .digit :: .one (.only '_') :: .few .any :: p.tailTerms

def keyOfGroups? : List (List Char) → Option StreamKey
  | [digits, stream, extension] =>
    (ordinal? digits).map fun n => ⟨n, String.ofList stream, String.ofList extension⟩
  | _ => none

end SegmentPattern
end CaptureExport
