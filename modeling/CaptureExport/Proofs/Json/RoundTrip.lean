import CaptureExport.Json.Printer
import CaptureExport.Proofs.Json.Members
import CaptureExport.Proofs.Json.Numbers
import CaptureExport.Proofs.Text.Utf8

/-! # JSON read back

A written value is on one line, and is read back when the members of its objects are in order.
-/

namespace CaptureExport.Json

variable {c : Char} {cs r : List Char} {n : ℕ} {j : Json}

/-! ## Strings -/

theorem hexValue?_hexDigit (h : n < 16) : hexValue? (hexDigit n) = some n := by
  have hall : ∀ n < 16, hexValue? (hexDigit n) = some n := by decide
  exact hall n h

theorem readNumbered_control (h : c.toNat < 0x20) :
    readNumbered ('0' :: '0' :: hexDigit (c.toNat / 16) :: hexDigit (c.toNat % 16) :: r) =
      some (c, r) := by
  have hzero : hexValue? '0' = some 0 := rfl
  have hvalue : 16 * (c.toNat / 16) + c.toNat % 16 = c.toNat := by omega
  have hhigh : ¬ (0xD800 ≤ c.toNat) := by omega
  have hlow : ¬ (0xDC00 ≤ c.toNat) := by omega
  simp [readNumbered, readUnit, hzero, hexValue?_hexDigit (show c.toNat / 16 < 16 by omega),
    hexValue?_hexDigit (show c.toNat % 16 < 16 by omega), hvalue, hhigh, hlow, Char.ofNat_toNat]

theorem readChars_escapeChar (c : Char) (n : ℕ) (r : List Char) :
    readChars (n + 1) (escapeChar c ++ r) = (readChars n r).map fun p => (c :: p.1, p.2) := by
  have hshort {e c : Char} (hu : e ≠ 'u') (he : shortEscape? e = some c) :
      readChars (n + 1) ('\\' :: e :: r) = (readChars n r).map fun p => (c :: p.1, p.2) := by
    simp only [readChars, he]
    cases readChars n r <;> rfl
  unfold escapeChar
  split_ifs with h₁ h₂ h₃ h₄ h₅ h₆ h₇ h₈
  · subst h₁
    exact hshort (by decide) rfl
  · subst h₂
    exact hshort (by decide) rfl
  · subst h₃
    exact hshort (by decide) rfl
  · subst h₄
    exact hshort (by decide) rfl
  · subst h₅
    exact hshort (by decide) rfl
  · subst h₆
    exact hshort (by decide) rfl
  · subst h₇
    exact hshort (by decide) rfl
  · simp only [List.cons_append, List.nil_append, readChars, readNumbered_control h₈,
      Option.bind_eq_bind, Option.bind_some]
    cases readChars n r <;> rfl
  · simp only [List.cons_append, List.nil_append]
    rw [readChars, if_neg h₈]
    · cases readChars n r <;> rfl
    · exact h₁
    all_goals simp [h₂]

theorem readChars_escape (h : cs.length < n) (r : List Char) :
    readChars n (cs.flatMap escapeChar ++ '"' :: r) = some (cs, r) := by
  induction cs generalizing n with
  | nil =>
    cases n with
    | zero => cases h
    | succ n => rfl
  | cons c cs ih =>
    cases n with
    | zero => cases h
    | succ n =>
      rw [List.flatMap_cons, List.append_assoc, readChars_escapeChar,
        ih (Nat.lt_of_succ_lt_succ h)]
      rfl

theorem escapeChar_ne_nil (c : Char) : escapeChar c ≠ [] := by
  unfold escapeChar
  split_ifs <;> simp

theorem length_le_escape (cs : List Char) : cs.length ≤ (cs.flatMap escapeChar).length := by
  induction cs with
  | nil => simp
  | cons c cs ih =>
    have hc := List.length_pos_of_ne_nil (escapeChar_ne_nil c)
    rw [List.flatMap_cons, List.length_append, List.length_cons]
    omega

theorem readString_writeString (s : String) (r : List Char) :
    readString ((s.toList.flatMap escapeChar ++ ['"']) ++ r) = some (s, r) := by
  have hlen := length_le_escape s.toList
  rw [List.append_assoc, List.singleton_append, readString, readChars_escape]
  · simp
  · rw [List.length_append]
    omega

/-! ## Lines -/

theorem newline_not_mem_escapeChar (c : Char) : '\n' ∉ escapeChar c := by
  have hhex : ∀ n < 16, hexDigit n ≠ '\n' := by decide
  unfold escapeChar
  split_ifs with h₁ h₂ h₃ h₄ h₅ h₆ h₇ h₈
  · decide
  · decide
  · decide
  · decide
  · decide
  · decide
  · decide
  · have hfirst := hhex (c.toNat / 16) (by omega)
    have hsecond := hhex (c.toNat % 16) (by omega)
    simp [Ne.symm hfirst, Ne.symm hsecond]
  · simpa using Ne.symm h₃

theorem newline_not_mem_writeString (s : String) : '\n' ∉ writeString s := by
  simp [writeString, newline_not_mem_escapeChar]

theorem newline_not_mem_of_digits {ds : List Char} (h : Digits ds) : '\n' ∉ ds := fun hm =>
  absurd (h _ hm) (by decide)

theorem newline_not_mem_intText (n : ℤ) : '\n' ∉ Decimal.intText n := by
  have hdigits := newline_not_mem_of_digits (digits_toDigits n.natAbs)
  unfold Decimal.intText
  split <;> simp [hdigits]

theorem newline_not_mem_pointed {ds : List Char} (h : '\n' ∉ ds) (point : ℤ) :
    '\n' ∉ Decimal.pointed ds point := by
  have htake (k : ℕ) : '\n' ∉ ds.take k := fun hm => h (List.mem_of_mem_take hm)
  have hdrop (k : ℕ) : '\n' ∉ ds.drop k := fun hm => h (List.mem_of_mem_drop hm)
  unfold Decimal.pointed
  split_ifs <;> simp [h, htake, hdrop]

theorem newline_not_mem_general (d : Decimal) : '\n' ∉ d.general := by
  have hsign : '\n' ∉ d.sign := by
    unfold Decimal.sign
    split <;> simp
  have hdigits : '\n' ∉ d.digits := newline_not_mem_of_digits (digits_toDigits _)
  have hexponent := newline_not_mem_intText (d.pointAt - 1)
  unfold Decimal.general
  split_ifs
  · simp [hsign]
  · simp [hsign, newline_not_mem_pointed hdigits]
  · cases hds : d.digits with
    | nil => exact hsign
    | cons c cs =>
      rw [hds] at hdigits
      cases cs <;> simp_all

mutual

/-- A value is written on one line. -/
theorem newline_not_mem_write : ∀ j : Json, '\n' ∉ write j
  | .null | .bool true | .bool false => by simp [write]
  | .int n => newline_not_mem_intText n
  | .decimal d => newline_not_mem_general d
  | .str s => newline_not_mem_writeString s
  | .arr [] | .obj [] => by simp [write]
  | .arr (x :: xs) => by
    simp [write, newline_not_mem_write x, newline_not_mem_writeItems xs]
  | .obj ((k, v) :: m) => by
    simp [write, newline_not_mem_writeString, newline_not_mem_write v,
      newline_not_mem_writeMembers m]

theorem newline_not_mem_writeItems : ∀ xs : List Json, '\n' ∉ writeItems xs
  | [] => by simp [writeItems]
  | x :: xs => by
    simp [writeItems, newline_not_mem_write x, newline_not_mem_writeItems xs]

theorem newline_not_mem_writeMembers : ∀ m : List (String × Json), '\n' ∉ writeMembers m
  | [] => by simp [writeMembers]
  | (k, v) :: m => by
    simp [writeMembers, newline_not_mem_writeString, newline_not_mem_write v,
      newline_not_mem_writeMembers m]

end

/-! ## Values -/

mutual

/-- The members of every object in it are in order. -/
def Ordered : Json → Prop
  | .arr items => OrderedItems items
  | .obj members => Members.Sorted members ∧ OrderedMembers members
  | _ => True

def OrderedItems : List Json → Prop
  | [] => True
  | x :: xs => Ordered x ∧ OrderedItems xs

def OrderedMembers : List (String × Json) → Prop
  | [] => True
  | (_, v) :: m => Ordered v ∧ OrderedMembers m

end

theorem orderedMembers_iff {m : Members} : OrderedMembers m ↔ ∀ p ∈ m, p.2.Ordered := by
  induction m with
  | nil => simp [OrderedMembers]
  | cons p m ih => simp [OrderedMembers, ih]

theorem isSpace_of_digit (hc : Text.isAsciiDigit c) : isSpace c = false := by
  have hne {d : Char} (hd : Text.isAsciiDigit d = false) : c ≠ d := ne_of_isAsciiDigit hc hd
  simp [isSpace, hne (d := ' ') rfl, hne (d := '\n') rfl, hne (d := '\t') rfl,
    hne (d := '\r') rfl]

theorem skipSpace_cons (hc : isSpace c = false) (cs : List Char) :
    skipSpace (c :: cs) = c :: cs := by
  simp [skipSpace, hc]

theorem readValue_number {negative : Bool} (hc : Text.isAsciiDigit c)
    (h : readNumber negative (c :: cs ++ r) = some (j, r)) (n : ℕ) :
    readValue (n + 1) ((if negative then ['-'] else []) ++ c :: cs ++ r) = some (j, r) := by
  cases negative with
  | true => simpa [readValue, skipSpace, isSpace] using h
  | false =>
    have hne {d : Char} (hd : Text.isAsciiDigit d = false) : c ≠ d := ne_of_isAsciiDigit hc hd
    have hskip := skipSpace_cons (isSpace_of_digit hc) (cs ++ r)
    simp only [Bool.false_eq_true, if_false, List.nil_append, List.cons_append] at h ⊢
    rw [readValue, hskip]
    -- A digit begins no other kind of value.
    split
    case h_8 => exact h
    all_goals
      rename_i heq
      exact absurd (List.cons.inj heq).1 (hne rfl)

theorem exists_write (j : Json) :
    ∃ c cs, write j = c :: cs ∧ isSpace c = false ∧ c ≠ ']' := by
  have hsigned {negative : Bool} {c : Char} {cs : List Char} (hc : Text.isAsciiDigit c) :
      ∃ d ds, (if negative then ['-'] else []) ++ c :: cs = d :: ds ∧ isSpace d = false ∧
        d ≠ ']' := by
    cases negative with
    | true => exact ⟨'-', c :: cs, rfl, rfl, by decide⟩
    | false => exact ⟨c, cs, rfl, isSpace_of_digit hc, ne_of_isAsciiDigit hc rfl⟩
  cases j with
  | null => exact ⟨_, _, rfl, rfl, by decide⟩
  | bool b => cases b <;> exact ⟨_, _, rfl, rfl, by decide⟩
  | int n =>
    obtain ⟨c, cs, htext, hc, -⟩ := @readNumber_intText [] n (by simp [Ends])
    rw [write, htext]
    simpa using @hsigned (n < 0) c cs hc
  | decimal d =>
    obtain ⟨c, cs, htext, hc, -⟩ := @readNumber_general [] d (by simp [Ends])
    rw [write, htext, Decimal.sign]
    exact hsigned hc
  | str s => exact ⟨_, _, rfl, rfl, by decide⟩
  | arr items => cases items <;> exact ⟨_, _, rfl, rfl, by decide⟩
  | obj members => cases members <;> exact ⟨_, _, rfl, rfl, by decide⟩

theorem ends_writeItems (xs : List Json) (r : List Char) : Ends (writeItems xs ++ r) := by
  cases xs <;> simp [Ends, writeItems] <;> decide

theorem ends_writeMembers (m : List (String × Json)) (r : List Char) :
    Ends (writeMembers m ++ r) := by
  cases m <;> simp [Ends, writeMembers] <;> decide

theorem readMember_write {k : String} {v : Json} (hv : readValue n (write v ++ r) = some (v, r)) :
    readMember (n + 1) (writeString k ++ ':' :: (write v ++ r)) = some ((k, v), r) := by
  have hkey := readString_writeString k (':' :: (write v ++ r))
  rw [writeString, List.cons_append, List.cons_append, readMember,
    skipSpace_cons (by decide)]
  have hskip := skipSpace_cons (c := ':') (by decide) (write v ++ r)
  simp only [hkey, hskip, hv, Option.bind_eq_bind, Option.bind_some]

mutual

/-- A value is read back in front of what no number goes on with. -/
theorem readValue_write : ∀ (j : Json) (n : ℕ) (r : List Char), j.Ordered →
    (write j).length < n → Ends r → readValue n (write j ++ r) = some (j, r)
  | _, 0, _, _, h, _ => absurd h (Nat.not_lt_zero _)
  | .null, n + 1, r, _, _, _ => by simp [write, readValue, skipSpace, isSpace]
  | .bool true, n + 1, r, _, _, _ => by simp [write, readValue, skipSpace, isSpace]
  | .bool false, n + 1, r, _, _, _ => by simp [write, readValue, skipSpace, isSpace]
  | .int i, n + 1, r, _, _, hr => by
    obtain ⟨c, cs, htext, hc, hread⟩ := readNumber_intText i hr
    rw [write, htext]
    simpa using readValue_number hc hread n
  | .decimal d, n + 1, r, _, _, hr => by
    obtain ⟨c, cs, htext, hc, hread⟩ := readNumber_general d hr
    rw [write, htext, Decimal.sign]
    exact readValue_number hc hread n
  | .str s, n + 1, r, _, _, _ => by
    have hread := readString_writeString s r
    rw [write, writeString, List.cons_append, List.cons_append, readValue,
      skipSpace_cons (by decide)]
    simp only [hread, Option.map_some]
  | .arr [], n + 1, r, _, _, _ => by simp [write, readValue, skipSpace, isSpace]
  | .arr (x :: xs), n + 1, r, ⟨hx, hxs⟩, hn, _ => by
    simp only [write, List.length_append, List.length_cons] at hn
    have hvalue := readValue_write x n (writeItems xs ++ r) hx (by omega) (ends_writeItems xs r)
    have hitems := readItems_write xs n r hxs (by omega)
    obtain ⟨c, cs, htext, hspace, hbracket⟩ := exists_write x
    rw [htext, List.cons_append] at hvalue
    rw [write, List.append_assoc, List.cons_append, readValue, skipSpace_cons (by decide)]
    simp only [htext, List.cons_append, skipSpace_cons hspace]
    split
    · rename_i heq
      exact absurd (List.cons.inj heq).1 hbracket
    · simp only [hvalue, hitems, Option.bind_eq_bind, Option.bind_some]
  | .obj [], n + 1, r, _, _, _ => by simp [write, readValue, skipSpace, isSpace]
  | .obj ((k, v) :: m), n + 1, r, ⟨hsorted, hv, hm⟩, hn, _ => by
    simp only [write, List.length_append, List.length_cons] at hn
    obtain ⟨n, rfl⟩ : ∃ n', n = n' + 1 := ⟨n - 1, by omega⟩
    have hvalue := readValue_write v n (writeMembers m ++ r) hv (by omega) (ends_writeMembers m r)
    have hmember := @readMember_write _ n k v hvalue
    have hmembers := readMembers_write m (n + 1) r hm (by omega)
    have htext : write (.obj ((k, v) :: m)) ++ r =
        '{' :: (writeString k ++ ':' :: (write v ++ (writeMembers m ++ r))) := by
      simp [write]
    have hskip : skipSpace (writeString k ++ ':' :: (write v ++ (writeMembers m ++ r))) =
        writeString k ++ ':' :: (write v ++ (writeMembers m ++ r)) := skipSpace_cons (by decide) _
    rw [htext, readValue, skipSpace_cons (by decide)]
    simp only [hskip]
    split
    · rename_i heq
      exact absurd (List.cons.inj heq).1 (by decide)
    · simp only [hmember, hmembers, Option.bind_eq_bind, Option.bind_some,
        Members.object_of_sorted hsorted]

theorem readItems_write : ∀ (xs : List Json) (n : ℕ) (r : List Char), OrderedItems xs →
    (writeItems xs).length < n → readItems n (writeItems xs ++ r) = some (xs, r)
  | _, 0, _, _, h => absurd h (Nat.not_lt_zero _)
  | [], n + 1, r, _, _ => by simp [writeItems, readItems, skipSpace, isSpace]
  | x :: xs, n + 1, r, ⟨hx, hxs⟩, hn => by
    simp only [writeItems, List.length_append, List.length_cons] at hn
    have hvalue := readValue_write x n (writeItems xs ++ r) hx (by omega) (ends_writeItems xs r)
    have hitems := readItems_write xs n r hxs (by omega)
    rw [writeItems, List.append_assoc, List.cons_append, readItems, skipSpace_cons (by decide)]
    simp only [hvalue, hitems, Option.bind_eq_bind, Option.bind_some]

theorem readMembers_write : ∀ (m : List (String × Json)) (n : ℕ) (r : List Char),
    OrderedMembers m → (writeMembers m).length < n →
      readMembers n (writeMembers m ++ r) = some (m, r)
  | _, 0, _, _, h => absurd h (Nat.not_lt_zero _)
  | [], n + 1, r, _, _ => by simp [writeMembers, readMembers, skipSpace, isSpace]
  | (k, v) :: m, n + 1, r, ⟨hv, hm⟩, hn => by
    simp only [writeMembers, List.length_append, List.length_cons] at hn
    obtain ⟨n, rfl⟩ : ∃ n', n = n' + 1 := ⟨n - 1, by omega⟩
    have hvalue := readValue_write v n (writeMembers m ++ r) hv (by omega) (ends_writeMembers m r)
    have hmember := @readMember_write _ n k v hvalue
    have hmembers := readMembers_write m (n + 1) r hm (by omega)
    have htext : writeMembers ((k, v) :: m) ++ r =
        ',' :: (writeString k ++ ':' :: (write v ++ (writeMembers m ++ r))) := by
      simp [writeMembers]
    rw [htext, readMembers, skipSpace_cons (by decide)]
    simp only [hmember, hmembers, Option.bind_eq_bind, Option.bind_some]

end

theorem ofChars?_write (h : j.Ordered) : ofChars? (write j) = some j := by
  have hread := readValue_write j (2 * (write j).length + 2) [] h (by omega) (by simp [Ends])
  rw [List.append_nil] at hread
  simp [ofChars?, hread, skipSpace]

end CaptureExport.Json
