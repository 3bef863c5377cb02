import CaptureExport.Proofs.Shutdown.Drain
import CaptureExport.Proofs.Sidecar.Run

/-! # Signals that are heard

When the end of the deadline is an instant, the coordinator does not fail. Once a signal has been
heard it waits for the deadline at the latest, so that the token is cancelled then.
-/

namespace CaptureExport

open Instant (Overflows)

theorem Trigger.Lawful.fire_cancelled {t : Trigger} (h : t.Lawful) (reason : CancelReason) :
    (t.fire reason).2.1.cancelled = true := by
  cases hf : t.fired with
  | true =>
    rw [fire_of_fired hf]
    exact (transition_cancelled _ _ t).trans (h.cancelled_eq.trans hf)
  | false => rw [fire_of_not_fired hf]

/-! ## The coordinator -/

namespace Coordinator

variable {lock : Path} {deadline : Duration} {now : Instant} {c : Coordinator} {t : Trigger}

/-- A coordinator that waits for the deadline at the latest. -/
inductive Waits : Coordinator → Prop
  | draining : Waits .draining
  | stalled : Waits .stalled

/-- A signal has been heard, or none is needed any more. -/
def Heard (c : Coordinator) (t : Trigger) : Prop := c.Waits ∨ t.cancelled = true

/-- A coordinator that has not failed and can still hear a signal if none has been heard. -/
structure Ready (c : Coordinator) (t : Trigger) : Prop where
  unfailed : ∀ m, c ≠ .panicked m
  hears : c = .listening ∨ Heard c t

theorem ready_of_heard (h : Heard c t) (hc : ∀ m, c ≠ .panicked m) : Ready c t := ⟨hc, Or.inr h⟩

theorem hear_of_cancelled (h : t.cancelled = true) (g : Signal) :
    hear lock deadline now g c t = ⟨c, t, []⟩ := by
  cases c <;> simp [hear, h]

theorem hearLate_of_uncancelled (h : t.cancelled = false) (g : Signal) :
    hearLate lock deadline now g c t = ⟨c, t, []⟩ := by
  cases c <;> simp [hearLate, h]

theorem hear_of_waits (h : c.Waits) (g : Signal) :
    hear lock deadline now g c t = ⟨c, t, []⟩ := by
  cases h <;> rfl

theorem heard_fire (ht : t.Lawful) (o : DrainOutcome) (reason : CancelReason)
    (before : List Log.Record) :
    Heard (fire o reason before t).coordinator (fire o reason before t).trigger :=
  Or.inr (ht.fire_cancelled reason)

namespace Ready

variable (h : Ready c t)
include h

theorem hear (hover : ¬ Overflows now deadline) (g : Signal) :
    let u := hear lock deadline now g c t
    Ready u.coordinator u.trigger ∧ Heard u.coordinator u.trigger := by
  rcases h.hears with rfl | hw | hc
  · cases hc : t.cancelled with
    | true =>
      rw [hear_of_cancelled hc]
      exact ⟨h, Or.inr hc⟩
    | false =>
      rw [Drain.hear_listening hc, Drain.begin_of_not_overflows hover, if_neg (by simp [hc])]
      exact ⟨ready_of_heard (Or.inl .draining) (by simp), Or.inl .draining⟩
  · rw [hear_of_waits hw]
    exact ⟨h, Or.inl hw⟩
  · rw [hear_of_cancelled hc]
    exact ⟨h, Or.inr hc⟩

theorem hearLate (hover : ¬ Overflows now deadline) (g : Signal) :
    let u := hearLate lock deadline now g c t
    Ready u.coordinator u.trigger ∧ (Heard c t → Heard u.coordinator u.trigger) := by
  cases hc : t.cancelled with
  | false =>
    rw [hearLate_of_uncancelled hc]
    exact ⟨h, id⟩
  | true =>
    cases c with
    | draining | stalled | ended => exact ⟨h, id⟩
    | panicked m => exact absurd rfl (h.unfailed m)
    | listening =>
      have hcancelled : t.beginDrain.2.cancelled = true :=
        (Trigger.transition_cancelled _ _ t).trans hc
      simp only [Coordinator.hearLate, Drain.begin_of_not_overflows hover, hc, if_true]
      exact ⟨ready_of_heard (Or.inr hcancelled) (by simp), fun _ => Or.inr hcancelled⟩

theorem poll (ht : t.Lawful) (found : LockState) :
    let u := poll lock found c t
    Ready u.coordinator u.trigger ∧ (Heard c t → Heard u.coordinator u.trigger) := by
  cases c with
  | listening | stalled | ended => exact ⟨h, id⟩
  | panicked m => exact absurd rfl (h.unfailed m)
  | draining =>
    simp only [Coordinator.poll]
    split
    · exact ⟨ready_of_heard (Or.inr ‹_›) (by simp), fun _ => Or.inr ‹_›⟩
    · split
      · exact ⟨ready_of_heard (heard_fire ht _ _ _) (by simp [fire]), fun _ => heard_fire ht _ _ _⟩
      · exact ⟨ready_of_heard (Or.inl .stalled) (by simp), fun _ => Or.inl .stalled⟩
      · exact ⟨h, id⟩
      · exact ⟨h, id⟩

/-- At the deadline the token is cancelled, if a signal has been heard. -/
theorem expire (ht : t.Lawful) :
    let u := expire lock deadline c t
    Ready u.coordinator u.trigger ∧ (Heard c t → u.trigger.cancelled = true) := by
  cases c with
  | listening => exact ⟨h, fun hh => hh.resolve_left fun hw => by cases hw⟩
  | ended => exact ⟨h, fun hh => hh.resolve_left fun hw => by cases hw⟩
  | panicked m => exact absurd rfl (h.unfailed m)
  | draining | stalled =>
    simp only [Coordinator.expire]
    split
    · exact ⟨ready_of_heard (Or.inr ‹_›) (by simp), fun _ => ‹_›⟩
    · exact ⟨ready_of_heard (heard_fire ht _ _ _) (by simp [fire]), fun _ => ht.fire_cancelled _⟩

end Ready

end Coordinator

/-! ## Runs -/

namespace Sidecar

variable {x : Sidecar} {now : Instant} {s : State}

theorem takeNotice_parts (x : Sidecar) (s : State) :
    (x.takeNotice s).coordinator = s.coordinator ∧ (x.takeNotice s).relief = s.relief := by
  unfold takeNotice
  split
  · exact ⟨rfl, rfl⟩
  · split <;> exact ⟨rfl, rfl⟩

theorem exportStep_parts (x : Sidecar) (i : ℕ) (s : State) :
    (x.exportStep i s).coordinator = s.coordinator ∧ (x.exportStep i s).trigger = s.trigger ∧
      (x.exportStep i s).relief = s.relief ∧ (x.exportStep i s).inbox = s.inbox := by
  unfold exportStep
  split
  · exact ⟨rfl, rfl, rfl, rfl⟩
  · split <;> exact ⟨rfl, rfl, rfl, rfl⟩

theorem tick_parts (x : Sidecar) (s : State) :
    (x.tick s).coordinator = s.coordinator ∧ (x.tick s).trigger = s.trigger ∧
      (x.tick s).inbox = s.inbox := by
  unfold tick
  split <;> exact ⟨rfl, rfl, rfl⟩

inductive Occurrence.ForCoordinator : Occurrence → Prop
  | signal (g : Signal) : ForCoordinator (.signal g)
  | lateSignal (g : Signal) : ForCoordinator (.lateSignal g)
  | poll : ForCoordinator .poll
  | deadline : ForCoordinator .deadline

/-- What is not for the coordinator leaves it alone, and only a notice among it can touch the
trigger. -/
theorem step_coordinator (o : Occurrence) : o.ForCoordinator ∨
    ((x.step now s o).coordinator = s.coordinator ∧
      (o ≠ .notice → (x.step now s o).trigger = s.trigger)) := by
  cases o with
  | signal g => exact Or.inl (.signal g)
  | lateSignal g => exact Or.inl (.lateSignal g)
  | poll => exact Or.inl .poll
  | deadline => exact Or.inl .deadline
  | change c => exact Or.inr ⟨rfl, fun _ => rfl⟩
  | notice => exact Or.inr ⟨(takeNotice_parts x s).1, fun h => absurd rfl h⟩
  | exportStep i =>
    obtain ⟨hcoordinator, htrigger, -⟩ := exportStep_parts x i s
    exact Or.inr ⟨hcoordinator, fun _ => htrigger⟩
  | tick =>
    obtain ⟨hcoordinator, htrigger, -⟩ := tick_parts x s
    exact Or.inr ⟨hcoordinator, fun _ => htrigger⟩

/-- No signal makes the coordinator fail, and the end of the deadline after any signal leaves the
token cancelled. -/
structure Answers (x : Sidecar) (now : Instant) (s : State) : Prop where
  unfailed : ∀ os m, (x.steps now s os).coordinator ≠ .panicked m
  cancels : ∀ before g between after,
    (x.steps now s (before ++ .signal g :: between ++ .deadline :: after)).trigger.cancelled = true

section Held

variable (hover : ¬ Overflows now x.config.drainDeadline)
include hover

theorem ready_step (h : Orderly s) (hr : s.coordinator.Ready s.trigger) (o : Occurrence) :
    (x.step now s o).coordinator.Ready (x.step now s o).trigger ∧
      (s.coordinator.Heard s.trigger →
        (x.step now s o).coordinator.Heard (x.step now s o).trigger) := by
  rcases @step_coordinator x now s o with hfor | ⟨hsame, -⟩
  · cases hfor with
    | signal g =>
      obtain ⟨hready, hheard⟩ := hr.hear hover g
      exact ⟨hready, fun _ => hheard⟩
    | lateSignal g => exact hr.hearLate hover g
    | poll => exact hr.poll h.lawful _
    | deadline =>
      obtain ⟨hready, hcancels⟩ := hr.expire h.lawful
      exact ⟨hready, fun hheard => Or.inr (hcancels hheard)⟩
  · have hheard (hh : s.coordinator.Heard s.trigger) :
        s.coordinator.Heard (x.step now s o).trigger :=
      hh.imp_right fun hc => (step_stands hc o).cancelled
    rw [hsame]
    exact ⟨⟨hr.unfailed, hr.hears.imp_right hheard⟩, hheard⟩

theorem ready_steps (h : Orderly s) (hr : s.coordinator.Ready s.trigger) (os : List Occurrence) :
    (x.steps now s os).coordinator.Ready (x.steps now s os).trigger ∧
      (s.coordinator.Heard s.trigger →
        (x.steps now s os).coordinator.Heard (x.steps now s os).trigger) := by
  induction os generalizing s with
  | nil => exact ⟨hr, id⟩
  | cons o os ih =>
    obtain ⟨hready, hheard⟩ := ready_step hover h hr o
    obtain ⟨hready', hheard'⟩ := ih (h.step o) hready
    exact ⟨hready', fun hh => hheard' (hheard hh)⟩

/-- After a signal, the end of the deadline leaves the token cancelled. -/
theorem cancelled_of_signal (h : Orderly s) (hr : s.coordinator.Ready s.trigger) (g : Signal)
    (between after : List Occurrence) :
    (x.steps now s (.signal g :: between ++ .deadline :: after)).trigger.cancelled = true := by
  have hsignal : Orderly (x.step now s (.signal g)) := h.step _
  obtain ⟨hready, hheard⟩ := hr.hear hover g
  obtain ⟨hready', hheard'⟩ := ready_steps hover hsignal hready between
  obtain ⟨-, hcancels⟩ := hready'.expire (hsignal.steps between).lawful
  rw [List.cons_append, steps, List.foldl_cons, ← steps, steps_append]
  exact (steps_stands (hcancels (hheard' hheard)) after).cancelled

theorem answers (h : Orderly s) (hs : s.coordinator = .listening) : Answers x now s := by
  have hready : s.coordinator.Ready s.trigger := ⟨fun m => by simp [hs], Or.inl hs⟩
  constructor
  · exact fun os m => (ready_steps hover h hready os).1.unfailed m
  · intro before g between after
    rw [List.append_assoc, steps_append]
    exact cancelled_of_signal hover (h.steps before) (ready_steps hover h hready before).1 g between
      after

end Held

end Sidecar
end CaptureExport
