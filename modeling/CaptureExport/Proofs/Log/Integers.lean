import CaptureExport.Proofs.Log.Lines

/-! # Integers in a line

An integer is a number in its line when a signed or an unsigned word of 64 bits holds it, and
otherwise the text of its decimal digits, whatever type carries it. Both tell the integer. No other
value is a number in its line.
-/

namespace CaptureExport

namespace Json

def IsNumber : Json → Prop
  | .int _ | .decimal _ => True
  | _ => False

/-- The integer that a value tells, as a number or by the text of one. -/
def told? : Json → Option ℤ
  | .int n => some n
  | .str s => (ofChars? s.toList).bind int?
  | _ => none

def ofInteger (n : ℤ) : Json :=
  if -Word.limit63 ≤ n ∧ n < Word.limit64 then .int n
  else .str (String.ofList (Decimal.intText n))

theorem told?_digits (n : ℤ) : told? (.str (String.ofList (Decimal.intText n))) = some n := by
  have hread : ofChars? (Decimal.intText n) = some (.int n) := @ofChars?_write (.int n) trivial
  rw [told?, String.toList_ofList, hread]
  rfl

theorem told?_ofInteger (n : ℤ) : told? (ofInteger n) = some n := by
  rw [ofInteger]
  split
  · rfl
  · exact told?_digits n

end Json

namespace Log

open Json Json.Members

structure Emits (v : Value) (j : Json) : Prop where
  integer : ∀ kind n, v = .integer kind n → j = ofInteger n ∧ told? j = some n
  other : (∀ kind n, v ≠ .integer kind n) → ¬ j.IsNumber

namespace Value

theorem toJson_integer (kind : IntegerKind) (n : ℤ) :
    (Value.integer kind n).toJson = ofInteger n := by
  have hbelow : -(Word.limit63 : ℤ) ≤ 0 := by decide
  have habove : (Word.limit63 : ℤ) ≤ Word.limit64 := by decide
  unfold toJson ofInteger
  simp only [text?, word?, signedWord?, truth?]
  by_cases hword : 0 ≤ n ∧ n < Word.limit64
  · have hexact : -Word.limit63 ≤ n ∧ n < Word.limit64 := ⟨Int.le_trans hbelow hword.1, hword.2⟩
    rw [if_pos hword, if_pos hexact]
  rw [if_neg hword]
  by_cases hsigned : -Word.limit63 ≤ n ∧ n < Word.limit63
  · have hexact : -Word.limit63 ≤ n ∧ n < Word.limit64 :=
      ⟨hsigned.1, Int.lt_of_lt_of_le hsigned.2 habove⟩
    rw [if_pos hsigned, if_pos hexact]
  · -- The two ranges overlap, so that nothing lies between them.
    have hexact : ¬ (-Word.limit63 ≤ n ∧ n < Word.limit64) := by omega
    rw [if_neg hsigned, if_neg hexact]
    rfl

theorem emits_toJson (v : Value) : Emits v v.toJson := by
  constructor
  · rintro kind n rfl
    rw [toJson_integer]
    exact ⟨rfl, told?_ofInteger n⟩
  · intro hother
    cases v with
    | integer kind n => exact absurd rfl (hother kind n)
    | text | truth | double | char | shown | quoted | absent => exact id

end Value

namespace Logger

/-- The line for a record is read back as an object in which every integer of the record is told,
by a number or the text of its digits, and no other value of a field is a number. -/
theorem integers_told (threshold : Threshold) (fields : List (String × Json))
    (hfields : ∀ f ∈ fields, f.2.Ordered) (entry : String × Record) :
    ∃ (text : List Char) (m : Members),
      (built threshold fields).line entry.1 entry.2 = text ++ ['\n'] ∧
      ofChars? text = some (.obj m) ∧
      ∀ key ∉ fixedKeys, ∀ v, lastValue key entry.2.fields = some v →
        ∃ j, m.get? key = some j ∧ Emits v j := by
  refine ⟨_, _, line_built, ofChars?_text hfields, fun key hkey v hv => ⟨v.toJson, ?_, ?_⟩⟩
  · rw [(faithful_membersOf fields entry).other key hkey, hv]
    rfl
  · exact v.emits_toJson

def extremes : Record :=
  ⟨.info, "main", "", [("a", .integer .wide Word.limit64),
    ("b", .integer .signedWide (-Word.limit63)), ("c", .integer .signedWide (-Word.limit63 - 1)),
    ("d", .nat (Word.limit64 - 1)), ("e", .shown "7"),
    ("b", .integer .signedWord (-Word.limit63))]⟩

theorem integers_told_of_extremes :
    (∀ f ∈ [("e", Json.int 1), ("d", .str "")], f.2.Ordered) ∧
    ∃ (text : List Char) (m : Members),
      (built .off [("e", .int 1), ("d", .str "")]).line "10:00" extremes = text ++ ['\n'] ∧
      ofChars? text = some (.obj m) ∧
      m.get? "a" = some (.str "18446744073709551616") ∧
      m.get? "b" = some (.int (-9223372036854775808)) ∧
      m.get? "c" = some (.str "-9223372036854775809") ∧
      m.get? "d" = some (.int 18446744073709551615) ∧
      ∃ j, m.get? "e" = some j ∧ ¬ j.IsNumber := by
  have hordered : ∀ f ∈ [("e", Json.int 1), ("d", .str "")], f.2.Ordered := by
    simp [Json.Ordered]
  obtain ⟨text, m, hline, hm, hfield⟩ :=
    integers_told .off [("e", .int 1), ("d", .str "")] hordered ("10:00", extremes)
  have hinteger (key : String) (kind : IntegerKind) (n : ℤ) (hkey : key ∉ fixedKeys)
      (hlast : lastValue key extremes.fields = some (.integer kind n)) :
      m.get? key = some (ofInteger n) := by
    obtain ⟨j, hj, hemits⟩ := hfield key hkey _ hlast
    rw [hj, (hemits.integer kind n rfl).1]
  refine ⟨hordered, text, m, hline, hm, ?_, ?_, ?_, ?_, ?_⟩
  · exact hinteger "a" _ _ (by decide) rfl
  · exact hinteger "b" _ _ (by decide) rfl
  · exact hinteger "c" _ _ (by decide) rfl
  · exact hinteger "d" _ _ (by decide) rfl
  · obtain ⟨j, hj, hemits⟩ := hfield "e" (by decide) _ rfl
    exact ⟨j, hj, hemits.other fun _ _ => Value.noConfusion⟩

end Logger
end Log
end CaptureExport
