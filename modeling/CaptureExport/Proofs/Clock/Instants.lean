import CaptureExport.Clock.Basic

/-! # Ends that are instants

A wait has an end only if its seconds and those of the clock add up to what an instant holds.
-/

namespace CaptureExport.Instant

variable {now : Instant} {d : Duration} {n : Nat}

/-- The end of a duration lies beyond all instants. -/
def Overflows (now : Instant) (d : Duration) : Prop :=
  secondLimit ≤ Duration.seconds (now + d)

instance (now : Instant) (d : Duration) : Decidable (Overflows now d) := Nat.decLe _ _

theorem after?_of_overflows (h : Overflows now d) : after? now d = none :=
  if_neg (Nat.not_lt.mpr h)

theorem after?_of_not_overflows (h : ¬ Overflows now d) : after? now d = some (now + d) :=
  if_pos (Nat.not_le.mp h)

theorem after?_eq_none_iff : after? now d = none ↔ Overflows now d := by
  refine ⟨fun h => ?_, after?_of_overflows⟩
  by_cases hover : Overflows now d
  · exact hover
  · simp [after?_of_not_overflows hover] at h

theorem overflows_ofSeconds :
    Overflows now (Duration.ofSeconds n) ↔ secondLimit ≤ Duration.seconds now + n := by
  have hsum : Duration.seconds (now + Duration.ofSeconds n) = Duration.seconds now + n :=
    Nat.add_mul_div_right now n (by decide)
  rw [Overflows, hsum]

end CaptureExport.Instant
