import CaptureExport.Proofs.Clock.Instants
import CaptureExport.Proofs.Shutdown.Lock
import CaptureExport.Proofs.Shutdown.Shared
import CaptureExport.Sidecar.Step

/-! # How a drain ends

A drain whose deadline can be held ends by the deadline: at once when the token is cancelled
already, when the lock is taken, when somebody else cancels, or at the deadline itself. A drain
whose deadline cannot be held panics and leaves the token as it is.
-/

namespace CaptureExport

open Trigger
open Instant (Overflows)

def DrainOutcome.reason? : DrainOutcome → Option CancelReason
  | lockAcquired => some .lockAcquired
  | deadlineExpired => some .deadline
  | alreadyCancelled => none

namespace Drain

/-- A drain that is called at an instant. When its deadline cannot be held it panics, with a
message, and leaves the trigger draining. -/
def call (now : Instant) (trigger : Trigger) (lock : Path) (deadline : Duration)
    (history : LockHistory) (cut : Interruption) : Except (String × Trigger) DrainRun :=
  match deadlineAt? now deadline with
  | none => .error (Instant.overflowMessage, trigger.beginDrain.2)
  | some _ => .ok (run trigger lock deadline history cut)

def Preempted (t : Trigger) (cut : Interruption) : Prop := t.cancelled = true ∨ ∃ c ∈ cut, c.1 = 0

/-- The lock can be taken at a time, and nothing has ended the drain before. -/
def Wins (history : LockHistory) (deadline : Duration) (cut : Interruption) (e : Duration) : Prop :=
  Lock.First history deadline e ∧ history e = .lockable ∧ ∀ c ∈ cut, e < c.1

/-- How and when a drain ends. -/
inductive Concludes (t : Trigger) (history : LockHistory) (deadline : Duration)
    (cut : Interruption) : DrainOutcome → Duration → Prop
  | preempted (h : Preempted t cut) : Concludes t history deadline cut .alreadyCancelled 0
  | acquired {e : Duration} (h : ¬ Preempted t cut) (hw : Wins history deadline cut e) :
      Concludes t history deadline cut .lockAcquired e
  | interrupted {c : Duration × CancelReason} (h : ¬ Preempted t cut)
      (hw : ∀ e, ¬ Wins history deadline cut e) (hc : c ∈ cut) (hlt : c.1 < deadline) :
      Concludes t history deadline cut .alreadyCancelled c.1
  | expired (h : ¬ Preempted t cut) (hw : ∀ e, ¬ Wins history deadline cut e)
      (hc : ∀ c ∈ cut, deadline ≤ c.1) : Concludes t history deadline cut .deadlineExpired deadline

variable {now : Instant} {t : Trigger} {lock : Path} {deadline a b e : Duration}
  {history : LockHistory} {cut : Interruption} {o q : DrainOutcome} {r : DrainRun}

theorem Wins.unique (h : Wins history deadline cut a) (h' : Wins history deadline cut b) : a = b :=
  h.1.unique h'.1

/-- A drain ends in one way. -/
theorem Concludes.unique (h : Concludes t history deadline cut o a)
    (h' : Concludes t history deadline cut q b) : o = q ∧ a = b := by
  cases h with
  | preempted h =>
    cases h' with
    | preempted => exact ⟨rfl, rfl⟩
    | acquired hn | interrupted hn | expired hn => exact absurd h hn
  | acquired hn hw =>
    cases h' with
    | preempted h => exact absurd h hn
    | acquired _ hw' => exact ⟨rfl, hw.unique hw'⟩
    | interrupted _ hw' | expired _ hw' => exact absurd hw (hw' _)
  | interrupted hn hw hc hlt =>
    cases h' with
    | preempted h => exact absurd h hn
    | acquired _ hw' => exact absurd hw' (hw _)
    | interrupted _ _ hc' => exact ⟨rfl, congrArg Prod.fst (Option.mem_unique hc hc')⟩
    | expired _ _ hc' => exact absurd hlt (Nat.not_lt.mpr (hc' _ hc))
  | expired hn hw hc =>
    cases h' with
    | preempted h => exact absurd h hn
    | acquired _ hw' => exact absurd hw' (hw _)
    | interrupted _ _ hc' hlt => exact absurd hlt (Nat.not_lt.mpr (hc _ hc'))
    | expired => exact ⟨rfl, rfl⟩

def OnLock (lock : Path) (l : Log.Record) : Prop :=
  ∃ level fields message, l = record level lock fields message

/-- What becomes of the trigger and what is written in a drain: the lines about the lock, and then
those of the fire that ends it, the drain's own or that of somebody else. -/
structure Settles (t : Trigger) (lock : Path) (cut : Interruption) (r : DrainRun) : Prop where
  cancelled : r.trigger.cancelled = true
  left : r.trigger.state ≠ .active
  fires : ∃ lines, (∀ l ∈ lines, OnLock lock l) ∧
    match r.outcome.reason? with
    | some reason => t.beginDrain.2.fire reason = (true, r.trigger, [fireRecord reason]) ∧
        r.logs = lines ++ [fireRecord reason]
    | none => ∃ more, r.logs = lines ++ more ∧ (r.trigger, more) =
        if t.cancelled then (t.beginDrain.2, []) else interrupted t.beginDrain.2 cut

theorem onLock_waiting : OnLock lock (waitingRecord lock) := ⟨_, _, _, rfl⟩

theorem onLock_acquired : OnLock lock (acquiredRecord lock) := ⟨_, _, _, rfl⟩

theorem onLock_failed {cause : LockError} : OnLock lock (failedRecord lock cause) := ⟨_, _, _, rfl⟩

/-! ## Settling -/

theorem exists_fire (hf : t.fired = false) (reason : CancelReason) : ∃ u : Trigger,
    t.beginDrain.2.fire reason = (true, u, [fireRecord reason]) ∧ u.cancelled = true ∧
      u.state ≠ .active := by
  have hdrained : t.beginDrain.2.fired = false := (transition_fired _ _ t).trans hf
  exact ⟨_, fire_of_not_fired hdrained, rfl, beginDrain_state_ne_active t.beginDrain.2⟩

section Settles

variable {lines : List Log.Record} {reason : CancelReason} (hlines : ∀ l ∈ lines, OnLock lock l)
include hlines

theorem Settles.of_fired (hf : t.fired = false) (ho : o.reason? = some reason) :
    Settles t lock cut (fired o reason e t.beginDrain.2 lines) := by
  obtain ⟨u, hfire, hcancelled, hleft⟩ := exists_fire hf reason
  unfold fired
  rw [hfire]
  refine ⟨hcancelled, hleft, lines, hlines, ?_⟩
  rw [ho]
  exact ⟨hfire, rfl⟩

theorem Settles.of_interrupted (hf : t.fired = false) (hn : t.cancelled = false)
    {c : Duration × CancelReason} (hc : c ∈ cut) :
    Settles t lock cut ⟨.alreadyCancelled, e, (interrupted t.beginDrain.2 cut).1,
      lines ++ (interrupted t.beginDrain.2 cut).2⟩ := by
  obtain ⟨u, hfire, hcancelled, hleft⟩ := exists_fire hf c.2
  have hcut : interrupted t.beginDrain.2 cut = (u, [fireRecord c.2]) := by
    rw [Option.mem_def.mp hc]
    exact congrArg Prod.snd hfire
  rw [hcut]
  exact ⟨hcancelled, hleft, lines, hlines, _, rfl, by rw [if_neg (by simp [hn]), hcut]⟩

omit hlines in
theorem Settles.of_cancelled (hc : t.cancelled = true) :
    Settles t lock cut ⟨.alreadyCancelled, 0, t.beginDrain.2, []⟩ := by
  refine ⟨(transition_cancelled _ _ _).trans hc, beginDrain_state_ne_active t, [], by simp, ?_⟩
  exact ⟨[], rfl, by rw [if_pos hc]⟩

end Settles

/-! ## The end -/

def late (u : Trigger) (deadline : Duration) (cut : Interruption) (lines : List Log.Record) :
    DrainRun :=
  match cut with
  | some (c, _) =>
    if c < deadline then
      ⟨.alreadyCancelled, c, (interrupted u cut).1, lines ++ (interrupted u cut).2⟩
    else fired .deadlineExpired .deadline deadline u lines
  | none => fired .deadlineExpired .deadline deadline u lines

theorem late_concludes (hf : t.fired = false) (hn : ¬ Preempted t cut)
    (hw : ∀ e, ¬ Wins history deadline cut e) {lines : List Log.Record}
    (hlines : ∀ l ∈ lines, OnLock lock l) (hr : r = late t.beginDrain.2 deadline cut lines) :
    Concludes t history deadline cut r.outcome r.elapsed ∧ Settles t lock cut r := by
  have hcancelled : t.cancelled = false := Bool.eq_false_iff.mpr fun h => hn (Or.inl h)
  subst hr
  cases cut with
  | none => exact ⟨.expired hn hw (by simp), .of_fired hlines hf rfl⟩
  | some c =>
    obtain ⟨c, reason⟩ := c
    by_cases hlt : c < deadline
    · rw [late, if_pos hlt]
      exact ⟨.interrupted (c := (c, reason)) hn hw rfl hlt,
        .of_interrupted hlines hf hcancelled rfl⟩
    · rw [late, if_neg hlt]
      refine ⟨.expired hn hw fun d hd => ?_, .of_fired hlines hf rfl⟩
      obtain rfl := Option.some.inj hd
      exact Nat.not_lt.mp hlt

theorem run_of_cancelled (h : t.cancelled = true) :
    run t lock deadline history cut = ⟨.alreadyCancelled, 0, t.beginDrain.2, []⟩ := by
  have hcancel : t.beginDrain.2.cancelled = true := (transition_cancelled _ _ _).trans h
  unfold run
  dsimp only
  rw [if_pos hcancel]

theorem run_of_cut (h : t.cancelled = false) {c : Duration × CancelReason} (hc : c ∈ cut)
    (hzero : c.1 = 0) : run t lock deadline history cut =
      ⟨.alreadyCancelled, 0, (interrupted t.beginDrain.2 cut).1,
        [] ++ (interrupted t.beginDrain.2 cut).2⟩ := by
  have hcancel : t.beginDrain.2.cancelled = false := (transition_cancelled _ _ _).trans h
  have hany : (cut.any fun c => c.1 = 0) = true := by simp [Option.mem_def.mp hc, hzero]
  unfold run
  dsimp only
  rw [if_neg (by simp [hcancel]), if_pos hany]
  rfl

theorem run_of_not_preempted (h : ¬ Preempted t cut) : run t lock deadline history cut =
    match Lock.acquire lock history deadline (cut.map Prod.fst) with
    | (.ok (), at') => fired .lockAcquired .lockAcquired at' t.beginDrain.2
        [waitingRecord lock, acquiredRecord lock]
    | (.error (.cancelled _), at') => ⟨.alreadyCancelled, at', (interrupted t.beginDrain.2 cut).1,
        [waitingRecord lock] ++ (interrupted t.beginDrain.2 cut).2⟩
    | (.error e, _) =>
      late t.beginDrain.2 deadline cut [waitingRecord lock, failedRecord lock e] := by
  have hcancel : t.beginDrain.2.cancelled = false :=
    (transition_cancelled _ _ _).trans (Bool.eq_false_iff.mpr fun hc => h (Or.inl hc))
  have hzero : (cut.any fun c => c.1 = 0) = false := by
    cases cut with
    | none => rfl
    | some c => exact decide_eq_false fun hc => h (Or.inr ⟨c, rfl, hc⟩)
  unfold run
  dsimp only
  rw [if_neg (by simp [hcancel]), if_neg (by simp [hzero])]
  rfl

theorem run_concludes (hs : t.fired = t.cancelled)
    (hcut : ∀ c ∈ cut, c.1 = 0 ∨ (c.1 ≠ deadline ∧ (Lock.pollInterval ∣ c.1 → deadline < c.1))) :
    Concludes t history deadline cut (run t lock deadline history cut).outcome
        (run t lock deadline history cut).elapsed ∧
      Settles t lock cut (run t lock deadline history cut) := by
  by_cases hp : Preempted t cut
  · cases hc : t.cancelled with
    | true =>
      rw [run_of_cancelled hc]
      exact ⟨.preempted hp, .of_cancelled hc⟩
    | false =>
      obtain ⟨c, hmem, hzero⟩ := hp.resolve_left (by simp [hc])
      rw [run_of_cut hc hmem hzero]
      exact ⟨.preempted hp, .of_interrupted (by simp) (hs.trans hc) hc hmem⟩
  · have hc : t.cancelled = false := Bool.eq_false_iff.mpr fun h => hp (Or.inl h)
    have hf : t.fired = false := hs.trans hc
    have hfailed (e : LockError) : ∀ l ∈ [waitingRecord lock, failedRecord lock e],
        OnLock lock l := by simp [onLock_waiting, onLock_failed]
    rw [run_of_not_preempted hp]
    have hends := Lock.acquire_ends lock history deadline (cut.map Prod.fst)
    generalize Lock.acquire lock history deadline (cut.map Prod.fst) = result at hends
    cases hends with
    | @acquired e hfirst hl hle =>
      have hw : Wins history deadline cut e := by
        refine ⟨hfirst, hl, fun c hmem => ?_⟩
        refine Nat.lt_of_le_of_ne (hle _ (Option.mem_map_of_mem _ hmem)) ?_
        rintro rfl
        rcases hcut c hmem with hzero | ⟨-, hpoll⟩
        · exact hp (Or.inr ⟨c, hmem, hzero⟩)
        · exact Nat.not_lt.mpr hfirst.le (hpoll hfirst.poll)
      exact ⟨.acquired hp hw, .of_fired (by simp [onLock_waiting, onLock_acquired]) hf rfl⟩
    | @failed e cause hfirst hfound hle =>
      refine late_concludes hf hp (fun e' hw => ?_) (hfailed (.open lock cause)) rfl
      obtain rfl := hfirst.unique hw.1
      exact absurd (hfound.symm.trans hw.2.1) (by simp)
    | cancelled hcancel hlt hn =>
      obtain ⟨c, hmem, rfl⟩ := Option.mem_map.mp hcancel
      refine ⟨.interrupted hp (fun e hw => ?_) hmem hlt,
        .of_interrupted (by simp [onLock_waiting]) hf hc hmem⟩
      exact hn e (Nat.le_of_lt (hw.2.2 c hmem)) hw.1.poll hw.1.decides
    | timedOut hn hle =>
      refine late_concludes hf hp (fun e hw => ?_) (hfailed (.timedOut lock deadline)) rfl
      exact hn e hw.1.le hw.1.poll hw.1.decides

/-! ## Deadlines that cannot be held -/

theorem deadlineAt?_eq_none_iff : deadlineAt? now deadline = none ↔ Overflows now deadline :=
  Instant.after?_eq_none_iff

theorem deadlineAt?_of_not_overflows (h : ¬ Overflows now deadline) :
    deadlineAt? now deadline = some (now + deadline) := Instant.after?_of_not_overflows h

theorem call_of_overflows (h : Overflows now deadline) :
    call now t lock deadline history cut =
      .error (Instant.overflowMessage, t.beginDrain.2) := by
  rw [call, deadlineAt?_eq_none_iff.mpr h]

theorem call_of_not_overflows (h : ¬ Overflows now deadline) :
    call now t lock deadline history cut = .ok (run t lock deadline history cut) := by
  rw [call, deadlineAt?_of_not_overflows h]

/-- A coordinator that nothing makes act any more. -/
def Inert (lock : Path) (deadline : Duration) (c : Coordinator) : Prop :=
  ∀ now s found t, c.hear lock deadline now s t = ⟨c, t, []⟩ ∧ c.poll lock found t = ⟨c, t, []⟩ ∧
    c.expire lock deadline t = ⟨c, t, []⟩

theorem inert_panicked (message : String) : Inert lock deadline (.panicked message) :=
  fun _ _ _ _ => ⟨rfl, rfl, rfl⟩

theorem begin_of_overflows (h : Overflows now deadline) (s : Signal) :
    Coordinator.begin lock deadline now s t =
      ⟨.panicked Instant.overflowMessage, t.beginDrain.2, [Coordinator.signalRecord s]⟩ := by
  simp [Coordinator.begin, deadlineAt?_eq_none_iff.mpr h]

theorem begin_of_not_overflows (h : ¬ Overflows now deadline) (s : Signal) :
    Coordinator.begin lock deadline now s t =
      if t.cancelled then
        ⟨.ended .alreadyCancelled, t.beginDrain.2, [Coordinator.signalRecord s]⟩
      else ⟨.draining, t.beginDrain.2, [Coordinator.signalRecord s, waitingRecord lock]⟩ := by
  have hc : t.beginDrain.2.cancelled = t.cancelled := transition_cancelled _ _ _
  simp [Coordinator.begin, deadlineAt?_of_not_overflows h, hc]

theorem hear_listening (hc : t.cancelled = false) (s : Signal) :
    Coordinator.hear lock deadline now s .listening t =
      Coordinator.begin lock deadline now s t := by
  simp [Coordinator.hear, hc]

/-! ## All drains -/

/-- A drain that comes to an end, which is the only one it can have. Cancelled from the start it
does not look at the lock. -/
structure Ends (now : Instant) (t : Trigger) (lock : Path) (deadline : Duration)
    (history : LockHistory) (cut : Interruption) (r : DrainRun) : Prop where
  call_eq : call now t lock deadline history cut = .ok r
  concludes_iff : ∀ o e, Concludes t history deadline cut o e ↔ r.outcome = o ∧ r.elapsed = e
  settles : Settles t lock cut r
  preempted : Preempted t cut → ∀ history', call now t lock deadline history' cut = .ok r

/-- A drain that panics and leaves a trigger behind, and the coordinator in which it does. -/
structure Panics (now : Instant) (t : Trigger) (lock : Path) (deadline : Duration)
    (history : LockHistory) (cut : Interruption) (u : Trigger) : Prop where
  call_eq : call now t lock deadline history cut = .error (Instant.overflowMessage, u)
  cancelled_eq : u.cancelled = t.cancelled
  hear_eq : t.cancelled = false → ∀ s, Coordinator.hear lock deadline now s .listening t =
    ⟨.panicked Instant.overflowMessage, u, [Coordinator.signalRecord s]⟩
  inert : Inert lock deadline (.panicked Instant.overflowMessage)

structure Untouched (s s' : Sidecar.State) : Prop where
  files_eq : s'.files = s.files
  holder_eq : s'.holder = s.holder

structure FiresByDeadline (now : Instant) (t : Trigger) (lock : Path) (deadline : Duration)
    (history : LockHistory) (cut : Interruption) : Prop where
  ends : ¬ Overflows now deadline → ∃ r, Ends now t lock deadline history cut r
  panics : Overflows now deadline → ∃ u, Panics now t lock deadline history cut u
  untouched : ∀ (x : Sidecar) (s : Sidecar.State) g, Untouched s (x.signal now g s) ∧
    Untouched s (x.lateSignal now g s) ∧ Untouched s (x.poll s) ∧ Untouched s (x.expire s)

/-- A drain that begins when every fire under way is over fires by its deadline, or panics when the
end of the deadline is no instant. Nobody else cancels at the deadline or when the lock is tried. -/
theorem fires_by_deadline (now : Instant) (t : Trigger) (lock : Path) (deadline : Duration)
    (history : LockHistory) (cut : Interruption) (hs : t.fired = t.cancelled)
    (hcut : ∀ c ∈ cut, c.1 = 0 ∨ (c.1 ≠ deadline ∧ (Lock.pollInterval ∣ c.1 → deadline < c.1))) :
    FiresByDeadline now t lock deadline history cut where
  ends h := by
    obtain ⟨hconcludes, hsettles⟩ := @run_concludes t lock deadline history cut hs hcut
    refine ⟨_, call_of_not_overflows h, fun o e => ⟨hconcludes.unique, ?_⟩, hsettles,
      fun hp history' => ?_⟩
    · rintro ⟨rfl, rfl⟩
      exact hconcludes
    · rw [call_of_not_overflows h]
      cases hc : t.cancelled with
      | true => rw [run_of_cancelled hc, run_of_cancelled hc]
      | false =>
        obtain ⟨c, hmem, hzero⟩ := hp.resolve_left (by simp [hc])
        rw [run_of_cut hc hmem hzero, run_of_cut hc hmem hzero]
  panics h := by
    refine ⟨_, call_of_overflows h, transition_cancelled _ _ _, fun hc s => ?_, inert_panicked _⟩
    rw [hear_listening hc, begin_of_overflows h]
  untouched _ _ _ := ⟨⟨rfl, rfl⟩, ⟨rfl, rfl⟩, ⟨rfl, rfl⟩, ⟨rfl, rfl⟩⟩

/-! ### A lock that is released, and a deadline without end -/

def released : LockHistory := fun t => if t < Duration.ofMillis 20 then .held else .lockable

def endless : Duration := Duration.ofSeconds (Word.limit64 - 1)

/-- The lock is taken at the next attempt before somebody else cancels. With the longest deadline
the drain panics although the lock is free, and nobody cancels. -/
theorem fires_by_deadline_of_released :
    (∃ r, call 0 {} ⟨[108]⟩ (Duration.ofMillis 30) released
        (some (Duration.ofMillis 25, .sentinel)) = .ok r ∧
      r.outcome = .lockAcquired ∧ r.elapsed = Duration.ofMillis 20 ∧ r.trigger.cancelled = true) ∧
    Overflows 0 endless ∧
    ∃ u, call 0 {} ⟨[108]⟩ endless (fun _ => .lockable) none =
      .error (Instant.overflowMessage, u) ∧ u.cancelled = false ∧
      ∀ s, Coordinator.hear ⟨[108]⟩ endless 0 s .listening {} =
        ⟨.panicked Instant.overflowMessage, u, [Coordinator.signalRecord s]⟩ := by
  constructor
  · have hcut : ∀ c ∈ some (Duration.ofMillis 25, CancelReason.sentinel),
        c.1 = 0 ∨ (c.1 ≠ Duration.ofMillis 30 ∧
          (Lock.pollInterval ∣ c.1 → Duration.ofMillis 30 < c.1)) := by
      rintro c hc
      obtain rfl := Option.some.inj hc
      exact Or.inr (by decide)
    have hp : ¬ Preempted {} (some (Duration.ofMillis 25, .sentinel)) := by
      rintro (h | ⟨c, hc, h⟩)
      · cases h
      · obtain rfl := Option.some.inj hc
        exact absurd h (by decide)
    have hw : Wins released (Duration.ofMillis 30) (some (Duration.ofMillis 25, .sentinel))
        (Duration.ofMillis 20) := by
      refine ⟨⟨by decide, by decide, Or.inl rfl, fun t ht _ => ?_⟩, rfl, fun c hc => ?_⟩
      · exact Lock.not_decides_iff.mpr (Or.inl (if_pos ht))
      · obtain rfl := Option.some.inj hc
        decide
    have h := fires_by_deadline 0 {} ⟨[108]⟩ (Duration.ofMillis 30) released _ rfl hcut
    obtain ⟨r, hends⟩ := h.ends (by decide)
    obtain ⟨ho, he⟩ := (hends.concludes_iff _ _).mp (.acquired hp hw)
    exact ⟨r, hends.call_eq, ho, he, hends.settles.cancelled⟩
  · have hover : Overflows 0 endless := by decide
    have h := fires_by_deadline 0 {} ⟨[108]⟩ endless (fun _ => .lockable) none rfl (by simp)
    obtain ⟨u, hpanics⟩ := h.panics hover
    exact ⟨hover, u, hpanics.call_eq, hpanics.cancelled_eq, hpanics.hear_eq rfl⟩

end Drain
end CaptureExport
