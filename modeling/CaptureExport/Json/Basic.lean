import CaptureExport.Decimal.Basic

/-! # JSON values

Numbers are either integers or decimals; a decimal is always written with a point or an
exponent, so the two do not mix. The members of an object are kept in ascending order of their
keys, each key once.
-/

namespace CaptureExport

inductive Json where
  | null
  | bool (b : Bool)
  | int (n : Int)
  | decimal (d : Decimal)
  | str (s : String)
  | arr (items : List Json)
  | obj (members : List (String × Json))

instance : Inhabited Json := ⟨.null⟩

namespace Json

abbrev Members := List (String × Json)

namespace Members

def insert (key : String) (value : Json) : Members → Members
  | [] => [(key, value)]
  | (k, v) :: r =>
    if key = k then (key, value) :: r
    else if key < k then (key, value) :: (k, v) :: r
    else (k, v) :: insert key value r

def insertAll (m : Members) (pairs : List (String × Json)) : Members :=
  pairs.foldl (fun m p => insert p.1 p.2 m) m

def get? (key : String) (m : Members) : Option Json :=
  (m.find? fun p => p.1 = key).map Prod.snd

def keys (m : Members) : List String := m.map Prod.fst

def without (dropped : List String) (m : Members) : Members :=
  m.filter fun p => !dropped.contains p.1

end Members

/-- The object with the given members; of equal keys the last one counts. -/
def object (pairs : List (String × Json)) : Json :=
  .obj (Members.insertAll [] pairs)

def get? (key : String) : Json → Option Json
  | .obj members => Members.get? key members
  | _ => none

def str? : Json → Option String
  | .str s => some s
  | _ => none

def int? : Json → Option Int
  | .int n => some n
  | _ => none

end Json
end CaptureExport
