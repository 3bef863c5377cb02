import CaptureExport.Proofs.Clock.Instants
import CaptureExport.Proofs.Shutdown.Lock

/-! # The attempts of a call

A call whose end is an instant tries the lock on the schedule of polling and ends as the last
attempt decides. A call whose end is no instant panics before it has tried the lock.
-/

namespace CaptureExport.Lock

variable {now : Instant} {path : Path} {history : LockHistory} {timeout : Duration}
  {cancel : Option Duration} {i k k' : ℕ} {r r' : Except LockError Unit × Duration}

/-! ## One way to end -/

theorem Stops.not_waits (h : Stops path history timeout cancel i r) :
    ¬ Waits history timeout cancel i := by
  rintro ⟨hundecided, hnext, huncancelled⟩
  cases h with
  | acquired h => exact hundecided (Or.inl h)
  | failed h => exact hundecided (Or.inr ⟨_, h⟩)
  | cancelled _ _ hc _ hlt => exact Nat.not_le.mpr hlt (huncancelled _ hc)
  | timedOut _ hlast =>
    rw [hlast] at hnext
    exact Nat.not_le.mpr (lt_pollTime_div timeout) hnext

theorem Stops.unique (h : Stops path history timeout cancel i r)
    (h' : Stops path history timeout cancel i r') : r = r' := by
  cases h with
  | acquired h =>
    cases h' with
    | acquired => rfl
    | failed h' => simp [h] at h'
    | cancelled h' | timedOut h' => exact absurd (Or.inl h) h'
  | failed h =>
    cases h' with
    | acquired h' => simp [h] at h'
    | failed h' => rw [LockState.failing.inj (h.symm.trans h')]
    | cancelled h' | timedOut h' => exact absurd (Or.inr ⟨_, h⟩) h'
  | cancelled h hnext hc =>
    cases h' with
    | acquired h' => exact absurd (Or.inl h') h
    | failed h' => exact absurd (Or.inr ⟨_, h'⟩) h
    | cancelled _ _ hc' => rw [Option.mem_unique hc hc']
    | timedOut _ hlast =>
      rw [hlast] at hnext
      exact absurd hnext (Nat.not_le.mpr (lt_pollTime_div timeout))
  | timedOut h hlast =>
    cases h' with
    | acquired h' => exact absurd (Or.inl h') h
    | failed h' => exact absurd (Or.inr ⟨_, h'⟩) h
    | cancelled _ hnext =>
      rw [hlast] at hnext
      exact absurd hnext (Nat.not_le.mpr (lt_pollTime_div timeout))
    | timedOut => rfl

theorem Polls.unique (h : Polls path history timeout cancel k r)
    (h' : Polls path history timeout cancel k' r') : k = k' ∧ r = r' := by
  rcases Nat.lt_trichotomy k k' with hlt | rfl | hlt
  · exact absurd (h'.waits k hlt) h.stops.not_waits
  · exact ⟨rfl, h.stops.unique h'.stops⟩
  · exact absurd (h.waits k' hlt) h'.stops.not_waits

theorem Polls.le_timeout (h : Polls path history timeout cancel k r) : r.2 ≤ timeout := by
  have hle := h.pollTime_le
  cases h.stops with
  | cancelled _ hnext _ _ hlt => exact Nat.le_of_lt (Nat.lt_of_lt_of_le hlt hnext)
  | _ => exact hle

/-! ## The call with notes -/

/-- A call with the times of its attempts, in their order. -/
def callNoting (now : Instant) (path : Path) (history : LockHistory) (timeout : Duration)
    (cancel : Option Duration) :
    Except String (Except LockError Unit × Duration) × List Duration :=
  Id.run ((callWith (noted history) path timeout cancel now).run [])

def attempts (now : Instant) (path : Path) (history : LockHistory) (timeout : Duration)
    (cancel : Option Duration) : List Duration :=
  (callNoting now path history timeout cancel).2

theorem callNoting_of_overflows (h : Instant.Overflows now timeout) :
    callNoting now path history timeout cancel = (.error Instant.overflowMessage, []) := by
  simp [callNoting, callWith, Instant.after?_of_overflows h]

theorem callNoting_of_not_overflows (h : ¬ Instant.Overflows now timeout) :
    callNoting now path history timeout cancel =
      (pollNoting path history timeout cancel (timeout / pollInterval + 1) 0 []).map .ok id := by
  simp [callNoting, callWith, acquireWith, pollNoting, Instant.after?_of_not_overflows h,
    Prod.map]

theorem call_of_overflows (h : Instant.Overflows now timeout) :
    call path history timeout cancel now = .error Instant.overflowMessage := by
  simp [call, callWith, Instant.after?_of_overflows h]

theorem call_of_not_overflows (h : ¬ Instant.Overflows now timeout) :
    call path history timeout cancel now = .ok (acquire path history timeout cancel) := by
  simp [call, callWith, acquire, Instant.after?_of_not_overflows h]

/-- The notes make no difference to the call. -/
theorem callNoting_fst : (callNoting now path history timeout cancel).1 =
    call path history timeout cancel now := by
  by_cases h : Instant.Overflows now timeout
  · rw [callNoting_of_overflows h, call_of_overflows h]
  · rw [callNoting_of_not_overflows h, call_of_not_overflows h, Prod.map_fst, pollNoting_fst]
    rfl

/-! ## All attempts -/

/-- A call that polls: its last attempt is the one at the `k`-th poll instant, and it gives `r`.
None of its attempts is cut off for want of room. -/
structure Scheduled (now : Instant) (path : Path) (history : LockHistory) (timeout : Duration)
    (cancel : Option Duration) (k : ℕ) (r : Except LockError Unit × Duration) : Prop where
  polls : Polls path history timeout cancel k r
  call_eq : call path history timeout cancel now = .ok r
  attempts_eq : attempts now path history timeout cancel = (List.range (k + 1)).map pollTime
  length_attempts_le :
    (attempts now path history timeout cancel).length ≤ timeout / pollInterval + 1
  le_timeout : r.2 ≤ timeout
  room : ∀ n > timeout / pollInterval, pollNoting path history timeout cancel n 0 [] =
    (r, attempts now path history timeout cancel)

structure Panics (now : Instant) (path : Path) (history : LockHistory) (timeout : Duration)
    (cancel : Option Duration) : Prop where
  call_eq : call path history timeout cancel now = .error Instant.overflowMessage
  attempts_eq : attempts now path history timeout cancel = []

structure OnSchedule (now : Instant) (path : Path) (history : LockHistory) (timeout : Duration)
    (cancel : Option Duration) : Prop where
  scheduled : ¬ Instant.Overflows now timeout →
    ∃ k r, Scheduled now path history timeout cancel k r
  panics : Instant.Overflows now timeout → Panics now path history timeout cancel

theorem scheduled_of_not_overflows (path : Path) (history : LockHistory) (cancel : Option Duration)
    (h : ¬ Instant.Overflows now timeout) :
    ∃ k r, Scheduled now path history timeout cancel k r := by
  obtain ⟨k, r, hpolls, hrun⟩ :=
    exists_polls path history timeout cancel (Nat.lt_succ_self (timeout / pollInterval))
  have hnoting : callNoting now path history timeout cancel =
      (.ok r, (List.range (k + 1)).map pollTime) := by
    rw [callNoting_of_not_overflows h, hrun]
    rfl
  have hattempts : attempts now path history timeout cancel = (List.range (k + 1)).map pollTime :=
    congrArg Prod.snd hnoting
  refine ⟨k, r, hpolls, ?_, hattempts, ?_, hpolls.le_timeout, fun n hn => ?_⟩
  · rw [← callNoting_fst, hnoting]
  · rw [hattempts, List.length_map, List.length_range]
    exact Nat.succ_le_succ (pollTime_le_iff.mp hpolls.pollTime_le)
  · obtain ⟨k', r', hpolls', hrun'⟩ := exists_polls path history timeout cancel hn
    obtain ⟨rfl, rfl⟩ := hpolls.unique hpolls'
    rw [hrun', hattempts]

/-- For every timeout, history of the lock file and time of a cancellation: a call whose end is an
instant keeps to its schedule, and any other panics before it has tried the lock. -/
theorem tried_on_schedule (now : Instant) (path : Path) (history : LockHistory)
    (timeout : Duration) (cancel : Option Duration) :
    OnSchedule now path history timeout cancel where
  scheduled := scheduled_of_not_overflows path history cancel
  panics h := ⟨call_of_overflows h, by rw [attempts, callNoting_of_overflows h]⟩

/-- The longest duration has no end, so that a lock that can be taken is not even tried. -/
theorem tried_on_schedule_of_longest :
    Panics 0 ⟨[108]⟩ (fun _ => .lockable) (Duration.ofSeconds 18446744073709551615 + 999999999)
      none :=
  (tried_on_schedule 0 ⟨[108]⟩ (fun _ => .lockable) _ none).panics (by decide +kernel)

example : attempts 0 ⟨[108]⟩ (fun t => if t < Duration.ofMillis 15 then .held else .lockable)
    (Duration.ofMillis 45) none = [0, Duration.ofMillis 10, Duration.ofMillis 20] := by
  decide +kernel

end CaptureExport.Lock
