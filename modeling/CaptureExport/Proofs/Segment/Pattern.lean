import Mathlib.Data.List.Infix
import CaptureExport.Proofs.Text.Digit
import CaptureExport.Segment.Name

/-! # The tail of a segment name

What follows the stream is two underscores, a timestamp and an accepted extension. When no
extension holds two underscores in a row, no tail begins inside of another text with a tail at
its end, so the stream is all that stands before the last one.
-/

namespace CaptureExport.SegmentPattern

variable {p : SegmentPattern} {cs r front stream tail : List Char} {extension : String} {k : ℕ}

/-! ## Steps of the reading -/

theorem strip?_eq_some_iff : strip? front cs = some r ↔ cs = front ++ r := by
  fun_induction strip? front cs with
  | case1 cs => simp
  | case2 => simp
  | case3 es c cs ih => simpa using ih
  | case4 e es c cs hne =>
    have hcons : c :: cs ≠ e :: es ++ r := fun h => hne (List.cons.inj h).1.symm
    simpa using hcons

theorem stripDigits?_eq_some_iff : stripDigits? k cs = some r ↔
    ∃ digits, cs = digits ++ r ∧ digits.length = k ∧ ∀ c ∈ digits, Text.isDigit c := by
  fun_induction stripDigits? k cs with
  | case1 cs =>
    constructor
    · intro h
      exact ⟨[], Option.some.inj h, rfl, by simp⟩
    · rintro ⟨digits, rfl, hlen, -⟩
      rw [List.eq_nil_of_length_eq_zero hlen, List.nil_append]
  | case2 =>
    simp only [reduceCtorEq, false_iff]
    rintro ⟨digits, h, hlen, -⟩
    simp [(List.append_eq_nil_iff.mp h.symm).1] at hlen
  | case3 k c cs hc ih =>
    rw [ih]
    constructor
    · rintro ⟨digits, rfl, hlen, hdigits⟩
      exact ⟨c :: digits, rfl, by simp [hlen], by simpa [hc] using hdigits⟩
    · rintro ⟨_ | ⟨d, digits⟩, h, hlen, hdigits⟩
      · cases hlen
      · obtain ⟨rfl, rfl⟩ : c = d ∧ cs = digits ++ r := by simpa using h
        exact ⟨digits, rfl, by simpa using hlen, fun e he => hdigits e (List.mem_cons_of_mem _ he)⟩
  | case4 k c cs hc =>
    simp only [reduceCtorEq, false_iff]
    rintro ⟨_ | ⟨d, digits⟩, h, hlen, hdigits⟩
    · cases hlen
    · obtain ⟨rfl, -⟩ : c = d ∧ cs = digits ++ r := by simpa using h
      exact hc (hdigits c List.mem_cons_self)

def stamp (date time : List Char) : List Char := date ++ 'T' :: time ++ ['.']

structure IsStamp (date time : List Char) : Prop where
  date_length : date.length = 8
  date_digits : ∀ c ∈ date, Text.isDigit c
  time_length : time.length = 6
  time_digits : ∀ c ∈ time, Text.isDigit c

theorem tail?_eq_some_iff : p.tail? cs = some extension ↔ ∃ date time, IsStamp date time ∧
    cs = '_' :: '_' :: stamp date time ++ extension.toList ∧ extension ∈ p.accepted := by
  simp only [tail?, Option.bind_eq_bind, Option.bind_eq_some_iff, strip?_eq_some_iff,
    stripDigits?_eq_some_iff]
  constructor
  · rintro ⟨_, rfl, _, ⟨date, rfl, hdate, hdate'⟩, _, rfl, _, ⟨time, rfl, htime, htime'⟩,
      cs, rfl, h⟩
    split at h
    · rename_i hmem
      obtain rfl : String.ofList cs = extension := Option.some.inj h
      exact ⟨date, time, ⟨hdate, hdate', htime, htime'⟩, by simp [stamp], hmem⟩
    · cases h
  · rintro ⟨date, time, hstamp, rfl, hmem⟩
    refine ⟨stamp date time ++ extension.toList, rfl, 'T' :: time ++ '.' :: extension.toList,
      ⟨date, ?_, hstamp.date_length, hstamp.date_digits⟩, time ++ '.' :: extension.toList, rfl,
      '.' :: extension.toList, ⟨time, rfl, hstamp.time_length, hstamp.time_digits⟩,
      extension.toList, rfl, ?_⟩
    · simp [stamp]
    · simp [hmem]

/-! ## The last tail -/

theorem pair_infix_append_iff {l : List Char} (hl : '_' ∉ l) :
    ['_', '_'] <:+: l ++ r ↔ ['_', '_'] <:+: r := by
  induction l with
  | nil => simp
  | cons c l ih =>
    obtain ⟨hc, hl⟩ : ¬ '_' = c ∧ '_' ∉ l := by simpa using hl
    rw [List.cons_append, List.infix_cons_iff, ih hl]
    simp [hc]

theorem not_mem_stamp {date time : List Char} (h : IsStamp date time) : '_' ∉ stamp date time := by
  have hunderscore : ¬ Text.isDigit '_' := by decide
  have hdate : '_' ∉ date := fun hm => hunderscore (h.date_digits _ hm)
  have htime : '_' ∉ time := fun hm => hunderscore (h.time_digits _ hm)
  simp [stamp, hdate, htime]

theorem infix_of_tail? (h : p.tail? cs = some extension) : ['_', '_'] <:+: cs := by
  obtain ⟨date, time, -, rfl, -⟩ := tail?_eq_some_iff.mp h
  exact ⟨[], stamp date time ++ extension.toList, rfl⟩

theorem tail?_eq_none_of_infix (hext : ∀ e ∈ p.accepted, ¬ ['_', '_'] <:+: e.toList)
    {c : Char} (h : ['_', '_'] <:+: cs) : p.tail? (c :: cs) = none := by
  rw [Option.eq_none_iff_forall_ne_some]
  intro extension htail
  obtain ⟨date, time, hstamp, hcs, hmem⟩ := tail?_eq_some_iff.mp htail
  obtain ⟨-, rfl⟩ := List.cons.inj hcs
  have hne : stamp date time ≠ [] := by simp [stamp]
  have hlast : ['_', '_'] <:+: stamp date time ++ extension.toList := by
    rcases List.infix_cons_iff.mp h with h | h
    · obtain ⟨d, l, hdl⟩ := List.exists_cons_of_ne_nil hne
      have hd : '_' ≠ d := fun he => not_mem_stamp hstamp (hdl ▸ he ▸ List.mem_cons_self)
      simp [hdl, hd] at h
    · exact h
  exact hext extension hmem ((pair_infix_append_iff (not_mem_stamp hstamp)).mp hlast)

/-- The stream is all that stands before the last tail. -/
theorem stream?_append (hext : ∀ e ∈ p.accepted, ¬ ['_', '_'] <:+: e.toList)
    (hne : stream ≠ []) (hline : '\n' ∉ stream) (htail : p.tail? tail = some extension) :
    p.stream? (stream ++ tail) = some (stream, extension) := by
  induction stream with
  | nil => exact absurd rfl hne
  | cons c stream ih =>
    obtain ⟨hc, hline⟩ : ¬ '\n' = c ∧ '\n' ∉ stream := by simpa using hline
    cases stream with
    | nil => simp [stream?, Ne.symm hc, htail]
    | cons d stream =>
      have hinfix : ['_', '_'] <:+: stream ++ tail := (infix_of_tail? htail).trans
        (List.suffix_append stream tail).isInfix
      have hnone : p.tail? (d :: (stream ++ tail)) = none := tail?_eq_none_of_infix hext hinfix
      rw [List.cons_append, List.cons_append, stream?, if_neg (Ne.symm hc), hnone]
      rw [← List.cons_append, ih (by simp) hline]
      rfl

end CaptureExport.SegmentPattern
