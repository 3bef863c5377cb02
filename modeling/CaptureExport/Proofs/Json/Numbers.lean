import Mathlib.Tactic.Ring
import CaptureExport.Json.Parser
import CaptureExport.Proofs.Text.Digit

/-! # Numbers read back

Integers are written as their digits, and decimals with a point or an exponent, positionally or
with one digit before the point. In every form the digits and the exponent that are read reduce
to the decimal that was written.
-/

namespace CaptureExport

namespace Decimal

variable {c k : ℕ} {e : ℤ} {d : Decimal}

theorem reduce_of_canonical (h : c % 10 ≠ 0) : reduce c e = (c, e) := by
  unfold reduce
  have hc : c ≠ 0 := by rintro rfl; exact h rfl
  rw [if_neg (fun h' => h h'.2), if_neg hc]

theorem reduce_zero (e : ℤ) : reduce 0 e = (0, 0) := by
  unfold reduce
  simp

theorem reduce_mul_pow (h : c % 10 ≠ 0) (k : ℕ) : reduce (c * 10 ^ k) e = (c, e + k) := by
  induction k generalizing e with
  | zero => simpa using reduce_of_canonical h
  | succ k ih =>
    have hc : c ≠ 0 := by rintro rfl; exact h rfl
    have hne : c * 10 ^ (k + 1) ≠ 0 := Nat.mul_ne_zero hc (by simp)
    have hsplit : c * 10 ^ (k + 1) = 10 * (c * 10 ^ k) := by rw [Nat.pow_succ]; ring
    rw [reduce, if_pos ⟨hne, by omega⟩, hsplit, Nat.mul_div_cancel_left _ (by decide), ih]
    push_cast
    ring_nf

theorem ofParts_eq (h : reduce c e = (d.coefficient, d.exponent)) :
    ofParts d.negative c e = d := by
  cases d
  simp_all [ofParts]

theorem coefficient_mod_ne (h : d.coefficient ≠ 0) : d.coefficient % 10 ≠ 0 := by
  simpa [h] using d.canonical

theorem ofParts_mul_pow (h : d.coefficient ≠ 0) (he : e + k = d.exponent) :
    ofParts d.negative (d.coefficient * 10 ^ k) e = d :=
  ofParts_eq (by rw [reduce_mul_pow (coefficient_mod_ne h), he])

theorem ofParts_self (h : d.coefficient ≠ 0) :
    ofParts d.negative d.coefficient d.exponent = d :=
  ofParts_eq (reduce_of_canonical (coefficient_mod_ne h))

theorem ofParts_zero (h : d.coefficient = 0) (e : ℤ) : ofParts d.negative 0 e = d := by
  have he : d.exponent = 0 := by simpa [h] using d.canonical
  exact ofParts_eq (by rw [reduce_zero, h, he])

end Decimal

namespace Json

open Text

variable {ds whole places r : List Char} {negative : Bool} {e : ℤ}

/-- No number goes on with these characters. -/
def Ends (r : List Char) : Prop :=
  ∀ c ∈ r.head?, isAsciiDigit c = false ∧ c ≠ '.' ∧ c ≠ 'e' ∧ c ≠ 'E'

def Digits (ds : List Char) : Prop := ∀ c ∈ ds, isAsciiDigit c

theorem Digits.append (h : Digits ds) (hr : ∀ c ∈ r.head?, isAsciiDigit c = false) :
    (ds ++ r).takeWhile isAsciiDigit = ds ∧ (ds ++ r).dropWhile isAsciiDigit = r := by
  rw [List.takeWhile_append_of_pos h, List.dropWhile_append_of_pos h]
  cases r with
  | nil => simp
  | cons c r => simp [hr c rfl]

theorem digits_toDigits (n : ℕ) : Digits (Nat.toDigits 10 n) := fun _ hc =>
  isAsciiDigit_of_mem_toDigits hc

theorem digits_zeros (k : ℕ) : Digits (List.replicate k '0') := fun _ hc =>
  List.eq_of_mem_replicate hc ▸ rfl

theorem digits_append {es : List Char} (h : Digits ds) (h' : Digits es) : Digits (ds ++ es) :=
  fun c hc => (List.mem_append.mp hc).elim (h c) (h' c)

/-! ## Exponents -/

theorem readExponent_of_ends (h : Ends r) : readExponent r = some (0, r) := by
  cases r with
  | nil => rfl
  | cons c r =>
    obtain ⟨-, -, he, hE⟩ := h c rfl
    simp [readExponent, he, hE]

theorem ne_of_isAsciiDigit {c d : Char} (hd : isAsciiDigit d) (hc : isAsciiDigit c = false) :
    d ≠ c := by
  rintro rfl
  exact absurd hd (by simp [hc])

theorem readExponent_intText (h : Ends r) (e : ℤ) :
    readExponent ('e' :: (Decimal.intText e ++ r)) = some (e, r) := by
  have hr : ∀ c ∈ r.head?, isAsciiDigit c = false := fun c hc => (h c hc).1
  have hvalue := digitsValue_toDigits e.natAbs
  have hdigits := digits_toDigits e.natAbs
  obtain ⟨d, ds, hds⟩ := List.exists_cons_of_ne_nil (@Nat.toDigits_ne_nil e.natAbs 10)
  rw [hds] at hvalue hdigits
  obtain ⟨htake, hdrop⟩ := hdigits.append hr
  have hminus : d ≠ '-' := ne_of_isAsciiDigit (hdigits d List.mem_cons_self) rfl
  have hplus : d ≠ '+' := ne_of_isAsciiDigit (hdigits d List.mem_cons_self) rfl
  rw [List.cons_append] at htake hdrop
  unfold Decimal.intText
  split
  · have hneg : -(e.natAbs : ℤ) = e := by omega
    simpa [readExponent, hds, htake, hdrop, hvalue] using hneg
  · have hpos : (e.natAbs : ℤ) = e := by omega
    simpa [readExponent, hds, hminus, hplus, htake, hdrop, hvalue] using hpos

/-! ## Numbers without their signs -/

/-- Digits before the point, with no zero before others. -/
structure Leads (whole : List Char) : Prop where
  ne_nil : whole ≠ []
  digits : Digits whole
  zero : whole.head? = some '0' → whole.length = 1

theorem Leads.accepted (h : Leads whole) :
    ¬ (whole.isEmpty ∨ (whole.head? = some '0' ∧ whole.length ≠ 1)) := by
  simp only [List.isEmpty_iff, h.ne_nil, false_or, not_and, not_not]
  exact h.zero

theorem leads_digit {c : Char} (h : isAsciiDigit c) : Leads [c] :=
  ⟨by simp, by simpa [Digits] using h, fun _ => rfl⟩

theorem leads_toDigits_append {n : ℕ} (hn : n ≠ 0) (h : Digits ds) :
    Leads (Nat.toDigits 10 n ++ ds) := by
  refine ⟨by simp [Nat.toDigits_ne_nil], digits_append (digits_toDigits n) h, fun hz => ?_⟩
  rw [List.head?_append_of_ne_nil _ Nat.toDigits_ne_nil] at hz
  exact absurd hz (head?_toDigits_ne_zero hn)

theorem leads_toDigits (n : ℕ) : Leads (Nat.toDigits 10 n) := by
  by_cases hn : n = 0
  · subst hn
    exact leads_digit rfl
  · simpa using @leads_toDigits_append [] n hn (by simp [Digits])

theorem readNumber_integer (hw : Leads whole) (hr : Ends r) : readNumber negative (whole ++ r) =
    some (readNumber.integer negative (digitsValue whole), r) := by
  obtain ⟨htake, hdrop⟩ := hw.digits.append fun c hc => (hr c hc).1
  rw [readNumber, htake, hdrop, if_neg hw.accepted]
  cases r with
  | nil => rfl
  | cons c r =>
    obtain ⟨-, hdot, he, hE⟩ := hr c rfl
    split
    · rename_i heq
      exact absurd (List.cons.inj heq).1 hdot
    · rename_i heq
      obtain ⟨rfl, rfl⟩ := List.cons.inj heq
      rw [if_neg (by simp [he, hE])]
    · rename_i heq
      cases heq

theorem readNumber_point (hw : Leads whole) (hp : places ≠ []) (hd : Digits places)
    {tail : List Char} (htail : ∀ c ∈ tail.head?, isAsciiDigit c = false)
    (he : readExponent tail = some (e, r)) :
    readNumber negative (whole ++ '.' :: (places ++ tail)) =
      some (.decimal (Decimal.ofParts negative (digitsValue (whole ++ places))
        (e - places.length)), r) := by
  obtain ⟨htake, hdrop⟩ := hw.digits.append (r := '.' :: (places ++ tail)) (by simp; rfl)
  obtain ⟨htake', hdrop'⟩ := hd.append htail
  rw [readNumber, htake, hdrop, if_neg hw.accepted]
  simp [htake', hdrop', hp, he]

theorem readNumber_exponent (hw : Leads whole) {tail : List Char}
    (he : readExponent ('e' :: tail) = some (e, r)) : readNumber negative (whole ++ 'e' :: tail) =
      some (.decimal (Decimal.ofParts negative (digitsValue whole) e), r) := by
  obtain ⟨htake, hdrop⟩ := hw.digits.append (r := 'e' :: tail) (by simp; rfl)
  rw [readNumber, htake, hdrop, if_neg hw.accepted]
  simp [he]

/-! ## Decimals -/

variable {d : Decimal}

theorem readNumber_places (hw : Leads whole) (hp : places ≠ []) (hd : Digits places) (hr : Ends r)
    (hvalue : Decimal.ofParts negative (digitsValue (whole ++ places)) (-places.length) = d) :
    readNumber negative (whole ++ '.' :: (places ++ r)) = some (.decimal d, r) := by
  rw [readNumber_point hw hp hd (fun c hc => (hr c hc).1) (readExponent_of_ends hr),
    Int.zero_sub, hvalue]

theorem readNumber_pointed (hc : d.coefficient ≠ 0) (hr : Ends r) :
    readNumber d.negative (Decimal.pointed d.digits d.pointAt ++ r) = some (.decimal d, r) := by
  have hdigits : Digits d.digits := digits_toDigits _
  have hvalue : digitsValue d.digits = d.coefficient := digitsValue_toDigits _
  have hne : d.digits ≠ [] := Nat.toDigits_ne_nil
  have hpoint : d.pointAt = d.digits.length + d.exponent := rfl
  unfold Decimal.pointed
  split
  · rename_i hle
    let places := List.replicate (-d.pointAt).toNat '0' ++ d.digits
    have hexponent : -(places.length : ℤ) = d.exponent := by
      simp only [places, List.length_append, List.length_replicate]
      omega
    have hparts : Decimal.ofParts d.negative (digitsValue (['0'] ++ places)) (-places.length) =
        d := by
      rw [hexponent, List.singleton_append, digitsValue_zero_cons, digitsValue_zeros_append,
        hvalue, Decimal.ofParts_self hc]
    have h := readNumber_places (leads_digit rfl) (by simp [hne])
      (digits_append (digits_zeros _) hdigits) hr hparts
    simpa [places] using h
  split
  · rename_i hlt hle
    let zeros := List.replicate (d.pointAt.toNat - d.digits.length) '0'
    have hparts : Decimal.ofParts d.negative (digitsValue (d.digits ++ zeros ++ ['0']))
        (-(['0'] : List Char).length) = d := by
      rw [List.append_assoc, ← List.replicate_succ', digitsValue_append_zeros, hvalue]
      refine Decimal.ofParts_mul_pow hc ?_
      simp only [List.length_singleton]
      omega
    have h := readNumber_places (leads_toDigits_append hc (digits_zeros _)) (by simp)
      (digits_zeros 1) hr hparts
    simpa [zeros, Decimal.digits] using h
  · rename_i hlt hle
    have hwhole : Leads (d.digits.take d.pointAt.toNat) := by
      refine ⟨?_, fun c hc => hdigits c (List.mem_of_mem_take hc), fun hz => ?_⟩
      · rw [Ne, List.take_eq_nil_iff]
        exact fun h => h.elim (by omega) hne
      · rw [List.head?_take] at hz
        split at hz
        · cases hz
        · exact absurd hz (head?_toDigits_ne_zero hc)
    have hexponent : -((d.digits.drop d.pointAt.toNat).length : ℤ) = d.exponent := by
      rw [List.length_drop]
      omega
    have hparts : Decimal.ofParts d.negative
        (digitsValue (d.digits.take d.pointAt.toNat ++ d.digits.drop d.pointAt.toNat))
        (-(d.digits.drop d.pointAt.toNat).length) = d := by
      rw [List.take_append_drop, hexponent, hvalue, Decimal.ofParts_self hc]
    have h := readNumber_places hwhole (by simp; omega)
      (fun c hc => hdigits c (List.mem_of_mem_drop hc)) hr hparts
    simpa using h

theorem exists_pointed (hd : Digits ds) (hne : ds ≠ []) (point : ℤ) :
    ∃ c body, Decimal.pointed ds point = c :: body ∧ isAsciiDigit c := by
  obtain ⟨c, cs, rfl⟩ := List.exists_cons_of_ne_nil hne
  have hc : isAsciiDigit c := hd c List.mem_cons_self
  unfold Decimal.pointed
  split
  · exact ⟨'0', _, rfl, rfl⟩
  split
  · exact ⟨c, _, rfl, hc⟩
  · obtain ⟨k, hk⟩ : ∃ k, point.toNat = k + 1 := ⟨point.toNat - 1, by omega⟩
    exact ⟨c, _, by rw [hk, List.take_succ_cons, List.cons_append], hc⟩

theorem readNumber_scientific {c : Char} {cs : List Char} (hc : d.coefficient ≠ 0) (hr : Ends r)
    (hds : d.digits = c :: cs) : readNumber d.negative
      ((if cs = [] then [c] else c :: '.' :: cs) ++ 'e' :: Decimal.intText (d.pointAt - 1) ++ r) =
        some (.decimal d, r) := by
  have hdigits : Digits (c :: cs) := hds ▸ digits_toDigits _
  have hvalue : digitsValue (c :: cs) = d.coefficient := hds ▸ digitsValue_toDigits _
  have hexponent : d.pointAt - 1 - cs.length = d.exponent := by
    rw [Decimal.pointAt, hds, List.length_cons]
    omega
  have hwhole : Leads [c] := leads_digit (hdigits c List.mem_cons_self)
  have hread := readExponent_intText hr (d.pointAt - 1)
  split
  · rename_i hcs
    subst hcs
    rw [List.length_nil, Int.natCast_zero, Int.sub_zero] at hexponent
    have hparts : Decimal.ofParts d.negative (digitsValue [c]) (d.pointAt - 1) = d := by
      rw [hexponent, hvalue, Decimal.ofParts_self hc]
    have h := @readNumber_exponent _ r d.negative _ hwhole _ hread
    simpa [hparts] using h
  · rename_i hcs
    have hplaces : Digits cs := fun d hd => hdigits d (List.mem_cons_of_mem _ hd)
    have h := @readNumber_point [c] cs r d.negative _ hwhole hcs hplaces _ (by simp; rfl) hread
    have hjoin : digitsValue ([c] ++ cs) = d.coefficient := hvalue
    rw [hexponent, hjoin, Decimal.ofParts_self hc] at h
    simpa using h

/-- A decimal without its sign is read back. -/
theorem readNumber_general (d : Decimal) (hr : Ends r) : ∃ c body,
    d.general = d.sign ++ c :: body ∧ isAsciiDigit c ∧
      readNumber d.negative (c :: body ++ r) = some (.decimal d, r) := by
  have hdigits : Digits d.digits := digits_toDigits _
  have hne : d.digits ≠ [] := Nat.toDigits_ne_nil
  unfold Decimal.general
  split
  · rename_i hc
    refine ⟨'0', ['.', '0'], rfl, rfl, ?_⟩
    exact readNumber_places (leads_digit rfl) (by simp) (digits_zeros 1) hr
      (Decimal.ofParts_zero hc _)
  rename_i hc
  split
  · obtain ⟨c, body, hbody, hdigit⟩ := exists_pointed hdigits hne d.pointAt
    exact ⟨c, body, by rw [hbody], hdigit, hbody ▸ readNumber_pointed hc hr⟩
  · obtain ⟨c, cs, hds⟩ := List.exists_cons_of_ne_nil hne
    have hdigit : isAsciiDigit c := hdigits c (hds ▸ List.mem_cons_self)
    have h := readNumber_scientific hc hr hds
    rw [hds]
    cases cs with
    | nil => exact ⟨c, _, rfl, hdigit, h⟩
    | cons c' cs =>
      exact ⟨c, '.' :: c' :: cs ++ 'e' :: Decimal.intText (d.pointAt - 1), by simp, hdigit,
        by simpa using h⟩

theorem readNumber_intText (n : ℤ) (hr : Ends r) : ∃ c body,
    Decimal.intText n = (if n < 0 then ['-'] else []) ++ c :: body ∧ isAsciiDigit c ∧
      readNumber (n < 0) (c :: body ++ r) = some (.int n, r) := by
  obtain ⟨c, body, hds⟩ := List.exists_cons_of_ne_nil (@Nat.toDigits_ne_nil n.natAbs 10)
  have hc : isAsciiDigit c := digits_toDigits n.natAbs c (by simp [hds])
  have h := @readNumber_integer _ r (n < 0) (leads_toDigits n.natAbs) hr
  rw [hds] at h
  refine ⟨c, body, ?_, hc, ?_⟩
  · rw [Decimal.intText, hds]
    split <;> rfl
  · rw [h, ← hds, digitsValue_toDigits, readNumber.integer]
    by_cases hn : n < 0
    · have hne : n.natAbs ≠ 0 := by omega
      have habs : -(n.natAbs : ℤ) = n := by omega
      simpa [hn, hne] using habs
    · have habs : (n.natAbs : ℤ) = n := by omega
      simp [hn, habs]

end Json
end CaptureExport
