import CaptureExport.Proofs.Shutdown.Attempts
import CaptureExport.Proofs.Sidecar.Ending

/-! # Configured times

The deadline and the interval of a configuration are whole seconds, and nothing bounds them. When
the seconds of the deadline and those of the clock add up to more than an instant holds, the first
signal makes the coordinator panic, and no signal cancels the run any more. Otherwise every signal
is followed by cancellation at the end of the deadline. The interval alike decides whether there is
any memory relief.
-/

namespace CaptureExport

open Instant (Overflows)

def Drain.budget (ends t : Instant) : Duration := ends - t

theorem Drain.after?_budget {now ends t : Instant} {deadline : Duration}
    (h : deadlineAt? now deadline = some ends) (ht : Duration.seconds t < Instant.secondLimit) :
    Instant.after? t (budget ends t) = some (max t ends) := by
  have hends : Duration.seconds ends < Instant.secondLimit := by
    unfold deadlineAt? Instant.after? at h
    split at h
    · cases h
      assumption
    · cases h
  rw [Instant.after?, budget]
  rcases Nat.le_total t ends with hle | hle
  · rw [Nat.add_sub_of_le hle, Nat.max_eq_right hle, if_pos hends]
  · rw [Nat.sub_eq_zero_of_le hle, Nat.add_zero, Nat.max_eq_left hle, if_pos ht]

theorem Config.times_of_ok {a : Arguments} {c : Config} (h : Config.ofArguments a = .ok c) :
    c.drainDeadline = Duration.ofSeconds a.deadline ∧
      c.interval = Duration.ofSeconds a.interval := by
  simp only [Config.ofArguments] at h
  split at h
  · cases h
  split at h
  · cases h
  split at h
  · cases h
  cases h
  exact ⟨rfl, rfl⟩

/-! ## A coordinator that cannot hold its deadline -/

namespace Coordinator

variable {lock : Path} {deadline : Duration} {now : Instant} {c : Coordinator} {t : Trigger}

/-- A coordinator that no signal makes cancel the token. -/
def Deaf (c : Coordinator) : Prop := c = .listening ∨ c = .panicked Instant.overflowMessage

namespace Deaf

variable (h : c.Deaf)
include h

theorem poll (found : LockState) : poll lock found c t = ⟨c, t, []⟩ := by
  rcases h with rfl | rfl <;> rfl

theorem expire : expire lock deadline c t = ⟨c, t, []⟩ := by
  rcases h with rfl | rfl <;> rfl

/-- When the end of the deadline is no instant, a signal leaves the token alone and ends the
coordinator, unless the token is cancelled already. -/
theorem hear (hover : Overflows now deadline) (g : Signal) :
    let u := hear lock deadline now g c t
    u.coordinator.Deaf ∧ u.trigger.cancelled = t.cancelled ∧
      (t.cancelled = false → u.coordinator = .panicked Instant.overflowMessage) := by
  rcases h with rfl | rfl
  · cases hc : t.cancelled with
    | true =>
      rw [hear_of_cancelled hc]
      exact ⟨Or.inl rfl, hc, by simp⟩
    | false =>
      rw [Drain.hear_listening hc, Drain.begin_of_overflows hover]
      exact ⟨Or.inr rfl, (Trigger.transition_cancelled _ _ t).trans hc, fun _ => rfl⟩
  · exact ⟨Or.inr rfl, rfl, fun _ => rfl⟩

theorem hearLate (hover : Overflows now deadline) (g : Signal) :
    let u := hearLate lock deadline now g c t
    u.coordinator.Deaf ∧ u.trigger.cancelled = t.cancelled := by
  cases hc : t.cancelled with
  | false =>
    rw [hearLate_of_uncancelled hc]
    exact ⟨h, hc⟩
  | true =>
    rcases h with rfl | rfl
    · simp only [Coordinator.hearLate, Drain.begin_of_overflows hover, hc, if_true]
      exact ⟨Or.inr rfl, (Trigger.transition_cancelled _ _ t).trans hc⟩
    · exact ⟨Or.inr rfl, hc⟩

end Deaf

end Coordinator

/-! ## Runs -/

namespace Sidecar

variable {x : Sidecar} {now : Instant} {s s₀ : State} {os : List Occurrence} {g : Signal}

theorem step_relief {m : String} (h : s.relief = .panicked m) (o : Occurrence) :
    (x.step now s o).relief = .panicked m := by
  cases o with
  | notice => exact (takeNotice_parts x s).2.trans h
  | exportStep i => exact (exportStep_parts x i s).2.2.1.trans h
  | tick => simp [step, tick, h]
  | change | signal | lateSignal | poll | deadline => exact h

theorem steps_relief {m : String} (h : s.relief = .panicked m) (os : List Occurrence) :
    (x.steps now s os).relief = .panicked m := by
  induction os generalizing s with
  | nil => exact h
  | cons o os ih => exact ih (step_relief h o)

/-! ### A deadline that cannot be held -/

theorem step_panicked {m : String} (h : s.coordinator = .panicked m) (o : Occurrence) :
    (x.step now s o).coordinator = .panicked m := by
  rcases @step_coordinator x now s o with hfor | ⟨hsame, -⟩
  · cases hfor with
    | signal g => simp [step, signal, State.withTurn, h, Coordinator.hear]
    | lateSignal g => simp [step, lateSignal, State.withTurn, h, Coordinator.hearLate]
    | poll => simp [step, poll, State.withTurn, h, Coordinator.poll]
    | deadline => simp [step, expire, State.withTurn, h, Coordinator.expire]
  · rw [hsame, h]

theorem steps_panicked {m : String} (h : s.coordinator = .panicked m) (os : List Occurrence) :
    (x.steps now s os).coordinator = .panicked m := by
  induction os generalizing s with
  | nil => exact h
  | cons o os ih => exact ih (step_panicked h o)

section Unheld

variable (hover : Overflows now x.config.drainDeadline)
include hover

theorem deaf_step (hd : s.coordinator.Deaf) (o : Occurrence) :
    (x.step now s o).coordinator.Deaf ∧
      (o ≠ .notice → (x.step now s o).trigger.cancelled = s.trigger.cancelled) := by
  rcases @step_coordinator x now s o with hfor | ⟨hsame, htrigger⟩
  · cases hfor with
    | signal g =>
      obtain ⟨hdeaf, hcancelled, -⟩ := hd.hear hover g
      exact ⟨hdeaf, fun _ => hcancelled⟩
    | lateSignal g =>
      obtain ⟨hdeaf, hcancelled⟩ := hd.hearLate hover g
      exact ⟨hdeaf, fun _ => hcancelled⟩
    | poll =>
      simp only [step, poll, State.withTurn, hd.poll]
      exact ⟨hd, fun _ => trivial⟩
    | deadline =>
      simp only [step, expire, State.withTurn, hd.expire]
      exact ⟨hd, fun _ => trivial⟩
  · rw [hsame]
    exact ⟨hd, fun hn => by rw [htrigger hn]⟩

theorem deaf_steps (hd : s.coordinator.Deaf) (os : List Occurrence) :
    (x.steps now s os).coordinator.Deaf := by
  induction os generalizing s with
  | nil => exact hd
  | cons o os ih => exact ih (deaf_step hover hd o).1

/-- As long as the watcher takes no notice, nothing cancels the token, and a signal is the end of
the coordinator. -/
theorem uncancelled_steps (hd : s.coordinator.Deaf) (hc : s.trigger.cancelled = false)
    (hn : .notice ∉ os) : (x.steps now s os).trigger.cancelled = false ∧
      ∀ g, .signal g ∈ os →
        (x.steps now s os).coordinator = .panicked Instant.overflowMessage := by
  induction os generalizing s with
  | nil => exact ⟨hc, fun g hg => by cases hg⟩
  | cons o os ih =>
    obtain ⟨ho, hos⟩ := not_or.mp (mt List.mem_cons.mpr hn)
    obtain ⟨hdeaf, hsame⟩ := deaf_step hover hd o
    obtain ⟨hcancelled, hpanicked⟩ := ih hdeaf ((hsame fun he => ho he.symm).trans hc) hos
    refine ⟨hcancelled, fun g hg => ?_⟩
    rcases List.mem_cons.mp hg with rfl | hg
    · exact steps_panicked ((hd.hear hover g).2.2 hc) os
    · exact hpanicked g hg

end Unheld

/-! ## Accepted arguments -/

/-- In a run that is not cancelled the next signal makes the coordinator fail, and only a notice of
the watcher can lead to cancellation. -/
structure Ignores (x : Sidecar) (now : Instant) (s : State) : Prop where
  uncancelled : ∀ before os, (x.steps now s before).trigger.cancelled = false → .notice ∉ os →
    (x.steps now s (before ++ os)).trigger.cancelled = false
  fails : ∀ before g os, (x.steps now s before).trigger.cancelled = false → .notice ∉ os →
    .signal g ∈ os →
      (x.steps now s (before ++ os)).coordinator = .panicked Instant.overflowMessage

theorem reliefAt_eq (began : Instant) : x.reliefAt began =
    if Overflows began x.memory.interval then .panicked Instant.overflowMessage else .returned := by
  unfold reliefAt
  split
  · rename_i h
    rw [if_pos (Instant.after?_eq_none_iff.mp h)]
  · rename_i h
    rw [if_neg fun hover => by simp [Instant.after?_eq_none_iff.mpr hover] at h]

theorem ignores (hs : s.coordinator = .listening)
    (hover : Overflows now x.config.drainDeadline) : Ignores x now s := by
  have hdeaf (before : List Occurrence) : (x.steps now s before).coordinator.Deaf :=
    deaf_steps hover (Or.inl hs) before
  constructor
  · intro before os hc hn
    rw [steps_append]
    exact (uncancelled_steps hover (hdeaf before) hc hn).1
  · intro before g os hc hn hg
    rw [steps_append]
    exact (uncancelled_steps hover (hdeaf before) hc hn).2 g hg

def Starts (x : Sidecar) (began : Instant) (s₀ : State) : Prop :=
  ∃ plan holder fs, (x.start began plan holder fs).1 = .ok s₀

/-- When the times of accepted arguments can be held, and what becomes of runs then and otherwise.
What is left of a deadline that can be held always can be held as well. -/
structure TimesHeld (a : Arguments) (c : Config) (now : Instant) : Prop where
  deadline_iff : Drain.deadlineAt? now c.drainDeadline = none ↔
    Instant.secondLimit ≤ Duration.seconds now + a.deadline
  interval_iff : Instant.after? now c.interval = none ↔
    Instant.secondLimit ≤ Duration.seconds now + a.interval
  budget : ∀ ends, Drain.deadlineAt? now c.drainDeadline = some ends →
    ∀ t, Duration.seconds t < Instant.secondLimit →
      Instant.after? t (Drain.budget ends t) = some (max t ends) ∧
        ∀ path history cancel, Lock.call path history (Drain.budget ends t) cancel t =
          .ok (Lock.acquire path history (Drain.budget ends t) cancel)
  answers : Duration.seconds now + a.deadline < Instant.secondLimit →
    ∀ began s₀, Starts (ofConfig c) began s₀ → Answers (ofConfig c) now s₀
  ignores : Instant.secondLimit ≤ Duration.seconds now + a.deadline →
    ∀ began s₀, Starts (ofConfig c) began s₀ → Ignores (ofConfig c) now s₀
  relieves : ∀ began s₀, Starts (ofConfig c) began s₀ →
    Duration.seconds began + a.interval < Instant.secondLimit → s₀.relief = .returned
  unrelieved : ∀ began s₀, Starts (ofConfig c) began s₀ →
    Instant.secondLimit ≤ Duration.seconds began + a.interval →
      ∀ os, ((ofConfig c).steps now s₀ os).relief = .panicked Instant.overflowMessage

theorem times_held_iff {a : Arguments} {c : Config} (h : Config.ofArguments a = .ok c)
    (now : Instant) : TimesHeld a c now := by
  obtain ⟨hdeadline, hinterval⟩ := Config.times_of_ok h
  have hdrain (t : Instant) : Overflows t c.drainDeadline ↔
      Instant.secondLimit ≤ Duration.seconds t + a.deadline := by
    rw [hdeadline, Instant.overflows_ofSeconds]
  have hrelief (t : Instant) : Overflows t c.interval ↔
      Instant.secondLimit ≤ Duration.seconds t + a.interval := by
    rw [hinterval, Instant.overflows_ofSeconds]
  constructor
  case deadline_iff => exact Drain.deadlineAt?_eq_none_iff.trans (hdrain now)
  case interval_iff => exact Instant.after?_eq_none_iff.trans (hrelief now)
  case budget =>
    intro ends hends t ht
    have hbudget := Drain.after?_budget hends ht
    refine ⟨hbudget, fun path history cancel => Lock.call_of_not_overflows fun hover => ?_⟩
    rw [Instant.after?_of_overflows hover] at hbudget
    cases hbudget
  case answers =>
    rintro hlt began s₀ ⟨plan, holder, fs, hstart⟩
    exact Sidecar.answers (mt (hdrain now).mp (Nat.not_le.mpr hlt)) (Orderly.start hstart)
      (start_eq hstart).1
  case ignores =>
    rintro hle began s₀ ⟨plan, holder, fs, hstart⟩
    exact Sidecar.ignores (start_eq hstart).1 ((hdrain now).mpr hle)
  case relieves =>
    rintro began s₀ ⟨plan, holder, fs, hstart⟩ hlt
    rw [(start_eq hstart).2, reliefAt_eq]
    exact if_neg (mt (hrelief began).mp (Nat.not_le.mpr hlt))
  case unrelieved =>
    rintro began s₀ ⟨plan, holder, fs, hstart⟩ hle os
    refine steps_relief ?_ os
    rw [(start_eq hstart).2, reliefAt_eq]
    exact if_pos ((hrelief began).mpr hle)

def longestTimes : Arguments :=
  { srcDir := .ofString "/s", interval := Word.limit64 - 1, deadline := Word.limit64 - 1 }

def signalsAndDeadline : List Occurrence :=
  [.poll, .signal .terminate, .poll, .deadline, .signal .interrupt]

/-- The longest times are accepted, but there is no clock at which they can be held. The signals do
not lead to cancellation, and there is no relief. -/
theorem times_held_iff_of_longest :
    Arguments.parse (["--src_dir", "/s", "--interval", "18446744073709551615",
      "--deadline", "18446744073709551615"].map Utf8.ofString) [] = .ok longestTimes ∧
    ∃ c s₀, Config.ofArguments longestTimes = .ok c ∧
      ((ofConfig c).start 0 [] none emptySource).1 = .ok s₀ ∧
      (∀ now, Drain.deadlineAt? now c.drainDeadline = none ∧
        Instant.after? now c.interval = none) ∧
      let s := (ofConfig c).steps 0 s₀ signalsAndDeadline
      s.trigger.cancelled = false ∧
        s.coordinator = .panicked Instant.overflowMessage ∧
        s.relief = .panicked Instant.overflowMessage := by
  have hbeyond (now : Instant) :
      Instant.secondLimit ≤ Duration.seconds now + (Word.limit64 - 1) :=
    Nat.le_add_left_of_le (by decide)
  obtain ⟨c, hc⟩ : ∃ c, Config.ofArguments longestTimes = .ok c := ⟨_, rfl⟩
  obtain ⟨s₀, hs⟩ : ∃ s₀, ((ofConfig c).start 0 [] none emptySource).1 = .ok s₀ := by
    cases hc
    exact ⟨_, rfl⟩
  refine ⟨by decide +kernel, c, s₀, hc, hs, fun now => ?_, ?_⟩
  · have htimes := times_held_iff hc now
    exact ⟨htimes.deadline_iff.mpr (hbeyond now), htimes.interval_iff.mpr (hbeyond now)⟩
  · have hstarts : Starts (ofConfig c) 0 s₀ := ⟨[], none, emptySource, hs⟩
    have htimes := times_held_iff hc 0
    have hi : Ignores (ofConfig c) 0 s₀ := htimes.ignores (hbeyond 0) 0 s₀ hstarts
    have hactive : ((ofConfig c).steps 0 s₀ []).trigger.cancelled = false := by
      cases hc
      cases hs
      rfl
    exact ⟨hi.uncancelled [] signalsAndDeadline hactive (by decide),
      hi.fails [] .terminate signalsAndDeadline hactive (by decide) (by decide),
      htimes.unrelieved 0 s₀ hstarts (hbeyond 0) signalsAndDeadline⟩

end Sidecar
end CaptureExport
