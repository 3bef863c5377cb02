import Mathlib.Data.Int.Notation
import Mathlib.Data.List.Nodup
import CaptureExport.Memory.Relief

/-! # Released memory

Two readings of the counter are subtracted as signed words. When their exact difference is the one
of a signed word, it is reported exactly if both readings lie below `2 ^ 63` or neither does. If one
of them does alone, the subtraction overflows and the loop is over, although the bits of the
difference would be right.
-/

namespace CaptureExport

namespace Relief

variable {r : Relief} {n : ℕ}

def exact (r : Relief) : ℤ := r.before - r.after

structure Fits (r : Relief) : Prop where
  least : -Word.limit63 ≤ r.exact
  above : r.exact < Word.limit63

/-- Both readings are non-negative as signed words, or both are negative. -/
def SameSign (r : Relief) : Prop := r.before < Word.limit63 ↔ r.after < Word.limit63

instance (r : Relief) : Decidable r.SameSign := inferInstanceAs (Decidable (_ ↔ _))

theorem signed_eq (h : n < Word.limit64) :
    signed n = if n < Word.limit63 then (n : ℤ) else n - Word.limit64 := by
  rw [signed, Nat.mod_eq_of_lt h]

section

variable (hb : r.before < Word.limit64) (ha : r.after < Word.limit64)
include hb ha

theorem difference_of_sameSign (h : r.SameSign) : r.difference = r.exact := by
  unfold difference exact
  rw [signed_eq hb, signed_eq ha]
  by_cases hsign : r.after < Word.limit63
  · rw [if_pos (h.mpr hsign), if_pos hsign]
  · rw [if_neg fun hbefore => hsign (h.mp hbefore), if_neg hsign]
    omega

theorem difference_of_not_sameSign (h : ¬ r.SameSign) :
    (r.after < Word.limit63 ∧ r.difference = r.exact - Word.limit64) ∨
      (r.before < Word.limit63 ∧ r.difference = r.exact + Word.limit64) := by
  unfold SameSign at h
  unfold difference exact
  rw [signed_eq hb, signed_eq ha]
  by_cases hsign : r.after < Word.limit63
  · have hbefore : ¬ r.before < Word.limit63 := fun hbefore => h (iff_of_true hbefore hsign)
    rw [if_neg hbefore, if_pos hsign]
    exact Or.inl ⟨hsign, by omega⟩
  · have hbefore : r.before < Word.limit63 :=
      Decidable.byContradiction fun hn => h (iff_of_false hn hsign)
    rw [if_pos hbefore, if_neg hsign]
    exact Or.inr ⟨hbefore, by omega⟩

theorem released?_of_sameSign (hfit : r.Fits) (h : r.SameSign) : r.released? = some r.exact := by
  rw [released?, difference_of_sameSign hb ha h, if_pos ⟨hfit.least, hfit.above⟩]

theorem released?_of_not_sameSign (hfit : r.Fits) (h : ¬ r.SameSign) : r.released? = none := by
  obtain ⟨hleast, habove⟩ := hfit
  have hlimit : (Word.limit64 : ℤ) = 2 * Word.limit63 := by decide
  refine if_neg fun hword => ?_
  rcases difference_of_not_sameSign hb ha h with ⟨-, hd⟩ | ⟨-, hd⟩
  · rw [hd] at hword
    omega
  · rw [hd] at hword
    omega

/-- The bits of the difference are those of the exact one, whether the subtraction overflows or
not. -/
theorem bmod_difference (hfit : r.Fits) : r.difference.bmod Word.limit64 = r.exact := by
  have hexact : r.exact.bmod Word.limit64 = r.exact :=
    Int.bmod_eq_of_le hfit.least hfit.above
  by_cases h : r.SameSign
  · rw [difference_of_sameSign hb ha h, hexact]
  · rcases difference_of_not_sameSign hb ha h with ⟨-, hd⟩ | ⟨-, hd⟩
    · rw [hd, Int.sub_bmod_right, hexact]
    · rw [hd, Int.add_bmod_right, hexact]

end

theorem released?_of_low (hb : r.before < Word.limit63) (ha : r.after < Word.limit63) :
    r.released? = some r.exact := by
  have hlimit : Word.limit63 < Word.limit64 := by decide
  refine released?_of_sameSign (Nat.lt_trans hb hlimit) (Nat.lt_trans ha hlimit) ⟨?_, ?_⟩
    (iff_of_true hb ha)
  · unfold exact
    omega
  · unfold exact
    omega

end Relief

namespace MemoryRelief

variable {m m' : MemoryRelief} {fs gs : FileSystem} {r : Relief} {n : ℕ}

theorem usage_lt (h : m.usage fs = .ok n) : n < Word.limit64 := by
  unfold usage at h
  split at h
  · cases h
  split at h
  · cases h
  split at h
  · rename_i k hk
    cases h
    simp only [Text.word?, Text.naturalBelow?, Option.bind_eq_bind, Option.bind_eq_some_iff] at hk
    obtain ⟨k, -, hk⟩ := hk
    split at hk
    · cases hk
      assumption
    · cases hk
  · cases h

theorem cycles_of_tick {logs : List Log.Record} (h : m.tick fs = (some r, gs, logs)) :
    m.cycles (n + 1) fs = match r.released? with
      | none => (.panicked Relief.overflowMessage, gs, logs)
      | some released =>
        ((m.cycles n gs).1, (m.cycles n gs).2.1,
          logs ++ [reliefRecord r released] ++ (m.cycles n gs).2.2) := by
  rw [cycles, h]
  simp only [report]
  cases r.released? <;> rfl

/-- The loop reports the exact difference when both readings lie below `2 ^ 63` or neither does.
Otherwise the subtraction overflows, nothing is reported, and no further cycle follows. -/
theorem reported_exactly (hb : m.usage fs = .ok r.before) (ha : m'.usage gs = .ok r.after)
    (hfit : r.Fits) :
    (r.SameSign → report r = (.returned, [reliefRecord r r.exact]) ∧
      ∀ (l : MemoryRelief) (hs hs' : FileSystem) logs n, l.tick hs = (some r, hs', logs) →
        l.cycles (n + 1) hs = ((l.cycles n hs').1, (l.cycles n hs').2.1,
          logs ++ [reliefRecord r r.exact] ++ (l.cycles n hs').2.2)) ∧
    (¬ r.SameSign → report r = (.panicked Relief.overflowMessage, []) ∧
      ∀ (l : MemoryRelief) (hs hs' : FileSystem) logs n, l.tick hs = (some r, hs', logs) →
        l.cycles (n + 1) hs = (.panicked Relief.overflowMessage, hs', logs)) ∧
    r.difference.bmod Word.limit64 = r.exact := by
  refine ⟨fun h => ?_, fun h => ?_, Relief.bmod_difference (usage_lt hb) (usage_lt ha) hfit⟩
  · have hreleased := Relief.released?_of_sameSign (usage_lt hb) (usage_lt ha) hfit h
    refine ⟨by rw [report, hreleased], fun l hs hs' logs n ht => ?_⟩
    rw [cycles_of_tick ht, hreleased]
  · have hreleased := Relief.released?_of_not_sameSign (usage_lt hb) (usage_lt ha) hfit h
    refine ⟨by rw [report, hreleased], fun l hs hs' logs n ht => ?_⟩
    rw [cycles_of_tick ht, hreleased]

def selfMeasured : MemoryRelief := ⟨⟨[47, 117]⟩, ⟨[47, 117]⟩, 10⟩

def counterFile (content : Bytes) : FileSystem := ⟨[([[117]], .file 0)], [content], []⟩

/-- A counter that stands at `2 ^ 63` and then at three ends the loop at its first tick. -/
theorem reported_exactly_of_selfMeasured :
    let r : Relief := ⟨Word.limit63, 3⟩
    let fs := counterFile (Utf8.ofString "9223372036854775808")
    let gs := counterFile (Utf8.ofString "3\n")
    selfMeasured.usage fs = .ok r.before ∧ selfMeasured.usage gs = .ok r.after ∧ r.Fits ∧
    selfMeasured.tick fs = (some r, gs, []) ∧
    report r = (.panicked Relief.overflowMessage, []) ∧
    selfMeasured.cycles 7 fs = (.panicked Relief.overflowMessage, gs, []) ∧
    r.difference.bmod Word.limit64 = 9223372036854775805 := by
  intro r fs gs
  have hb : selfMeasured.usage fs = .ok r.before := by decide +kernel
  have ha : selfMeasured.usage gs = .ok r.after := by decide +kernel
  have hfit : r.Fits := ⟨by decide, by decide⟩
  have ht : selfMeasured.tick fs = (some r, gs, []) := by decide +kernel
  obtain ⟨-, hover, hbits⟩ := reported_exactly hb ha hfit
  obtain ⟨hreport, hloop⟩ := hover (by decide)
  exact ⟨hb, ha, hfit, ht, hreport, hloop _ _ _ _ 6 ht, hbits⟩

end MemoryRelief
end CaptureExport
