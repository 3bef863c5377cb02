import Mathlib.Data.Nat.Notation
import CaptureExport.Shutdown.Lock

/-! # Polling the lock

The lock is tried at the start and then at one poll instant after the other, as long as an attempt
finds it held or absent, the next attempt is not too late, and nobody cancels before it.
-/

namespace CaptureExport.Lock

def Decides (found : LockState) : Prop := found = .lockable ∨ ∃ f, found = .failing f

variable {path : Path} {history : LockHistory} {timeout at' t : Duration} {cancel : Option Duration}
  {i n : ℕ} {times : List Duration} {r : Except LockError Unit × Duration}

theorem not_decides_iff {found : LockState} :
    ¬ Decides found ↔ found = .held ∨ found = .absent := by
  cases found <;> simp [Decides]

/-! ## One attempt -/

/-- What an attempt leads to: the end of polling, or the next attempt. -/
inductive Leads (path : Path) (timeout : Duration) (cancel : Option Duration) (at' : Duration) :
    LockState → Option (Except LockError Unit × Duration) → Prop
  | acquired : Leads path timeout cancel at' .lockable (some (.ok (), at'))
  | failed (f : LockFault) :
      Leads path timeout cancel at' (.failing f) (some (.error (.open path f), at'))
  | timedOut {found : LockState} (h : ¬ Decides found) (hlast : timeout < at' + pollInterval) :
      Leads path timeout cancel at' found (some (.error (.timedOut path timeout), at'))
  | cancelled {found : LockState} {c : Duration} (h : ¬ Decides found)
      (hnext : at' + pollInterval ≤ timeout) (hc : c ∈ cancel) (hlt : c < at' + pollInterval) :
      Leads path timeout cancel at' found (some (.error (.cancelled path), max c at'))
  | waits {found : LockState} (h : ¬ Decides found) (hnext : at' + pollInterval ≤ timeout)
      (hc : ∀ c ∈ cancel, at' + pollInterval ≤ c) : Leads path timeout cancel at' found none

theorem leads (path : Path) (timeout : Duration) (cancel : Option Duration) (at' : Duration)
    (found : LockState) :
    Leads path timeout cancel at' found (ending? path timeout cancel at' found) := by
  -- An absent file leads to the same as a held lock.
  have hundecided (h : ¬ Decides found) :
      Leads path timeout cancel at' found (ending? path timeout cancel at' .held) := by
    unfold ending?
    dsimp only
    split
    · exact .timedOut h ‹_›
    · have hnext : at' + pollInterval ≤ timeout := Nat.not_lt.mp ‹_›
      cases cancel with
      | none => exact .waits h hnext (by simp)
      | some c =>
        dsimp only
        split
        · exact .cancelled h hnext rfl ‹_›
        · exact .waits h hnext (by simpa using Nat.not_lt.mp ‹_›)
  cases found with
  | lockable => exact .acquired
  | failing f => exact .failed f
  | held => exact hundecided (not_decides_iff.mpr (Or.inl rfl))
  | absent => exact hundecided (not_decides_iff.mpr (Or.inr rfl))

/-! ## The schedule -/

def pollTime (i : ℕ) : Duration := i * pollInterval

theorem pollTime_succ (i : ℕ) : pollTime (i + 1) = pollTime i + pollInterval := Nat.succ_mul ..

theorem lt_pollTime_div (timeout : Duration) : timeout < pollTime (timeout / pollInterval + 1) := by
  rw [pollTime, Nat.mul_comm]
  exact Nat.lt_mul_div_succ timeout (by decide)

theorem pollTime_le_iff : pollTime i ≤ timeout ↔ i ≤ timeout / pollInterval :=
  (Nat.le_div_iff_mul_le (by decide)).symm

theorem exists_pollTime (h : pollInterval ∣ t) : ∃ i, t = pollTime i := by
  obtain ⟨i, rfl⟩ := h
  exact ⟨i, Nat.mul_comm ..⟩

theorem lt_of_pollTime_lt {j : ℕ} (h : pollTime i < pollTime j) : i < j :=
  Nat.lt_of_mul_lt_mul_right h

structure Waits (history : LockHistory) (timeout : Duration) (cancel : Option Duration)
    (i : ℕ) : Prop where
  undecided : ¬ Decides (history (pollTime i))
  next_le : pollTime (i + 1) ≤ timeout
  uncancelled : ∀ c ∈ cancel, pollTime (i + 1) ≤ c

/-- What polling ends with, and when, if the attempt at the `i`-th poll instant is the last one. -/
inductive Stops (path : Path) (history : LockHistory) (timeout : Duration)
    (cancel : Option Duration) (i : ℕ) : Except LockError Unit × Duration → Prop
  | acquired (h : history (pollTime i) = .lockable) :
      Stops path history timeout cancel i (.ok (), pollTime i)
  | failed {f : LockFault} (h : history (pollTime i) = .failing f) :
      Stops path history timeout cancel i (.error (.open path f), pollTime i)
  | cancelled {c : Duration} (h : ¬ Decides (history (pollTime i)))
      (hnext : pollTime (i + 1) ≤ timeout) (hc : c ∈ cancel) (hle : pollTime i ≤ c)
      (hlt : c < pollTime (i + 1)) :
      Stops path history timeout cancel i (.error (.cancelled path), c)
  | timedOut (h : ¬ Decides (history (pollTime i))) (hlast : i = timeout / pollInterval) :
      Stops path history timeout cancel i (.error (.timedOut path timeout), pollTime i)

/-- Polling whose last attempt is the one at the `k`-th poll instant. -/
structure Polls (path : Path) (history : LockHistory) (timeout : Duration)
    (cancel : Option Duration) (k : ℕ) (r : Except LockError Unit × Duration) : Prop where
  waits : ∀ i < k, Waits history timeout cancel i
  stops : Stops path history timeout cancel k r

theorem attempt_cases (hle : pollTime i ≤ timeout) (hc : ∀ c ∈ cancel, pollTime i ≤ c) :
    (∃ r, ending? path timeout cancel (pollTime i) (history (pollTime i)) = some r ∧
      Stops path history timeout cancel i r) ∨
    ending? path timeout cancel (pollTime i) (history (pollTime i)) = none ∧
      Waits history timeout cancel i := by
  have h := leads path timeout cancel (pollTime i) (history (pollTime i))
  generalize hfound : history (pollTime i) = found at h
  generalize ending? path timeout cancel (pollTime i) found = o at h
  cases h with
  | acquired => exact Or.inl ⟨_, rfl, .acquired hfound⟩
  | failed f => exact Or.inl ⟨_, rfl, .failed hfound⟩
  | timedOut h hlast =>
    rw [← pollTime_succ] at hlast
    exact Or.inl ⟨_, rfl, .timedOut (hfound ▸ h) (Nat.div_eq_of_lt_le hle hlast).symm⟩
  | cancelled h hnext hmem hlt =>
    rw [← pollTime_succ] at hnext hlt
    rw [Nat.max_eq_left (hc _ hmem)]
    exact Or.inl ⟨_, rfl, .cancelled (hfound ▸ h) hnext hmem (hc _ hmem) hlt⟩
  | waits h hnext hlater =>
    rw [← pollTime_succ] at hnext
    simp only [← pollTime_succ] at hlater
    exact Or.inr ⟨rfl, hfound ▸ h, hnext, hlater⟩

/-! ## Polling with notes -/

def noted (history : LockHistory) (at' : Duration) : StateM (List Duration) LockState := do
  modify (· ++ [at'])
  pure (history at')

def pollNoting (path : Path) (history : LockHistory) (timeout : Duration)
    (cancel : Option Duration) (n : ℕ) (at' : Duration) (times : List Duration) :
    (Except LockError Unit × Duration) × List Duration :=
  Id.run ((pollWith (noted history) path timeout cancel n at').run times)

theorem pollFrom_succ : pollFrom path history timeout cancel (n + 1) at' =
    (ending? path timeout cancel at' (history at')).getD
      (pollFrom path history timeout cancel n (at' + pollInterval)) := by
  simp only [pollFrom, pollWith, Id.run, pure_bind]
  cases ending? path timeout cancel at' (history at') <;> rfl

theorem pollNoting_of_some (h : ending? path timeout cancel at' (history at') = some r) :
    pollNoting path history timeout cancel (n + 1) at' times = (r, times ++ [at']) := by
  simp [pollNoting, pollWith, noted, h]

theorem pollNoting_of_none (h : ending? path timeout cancel at' (history at') = none) :
    pollNoting path history timeout cancel (n + 1) at' times =
      pollNoting path history timeout cancel n (at' + pollInterval) (times ++ [at']) := by
  simp [pollNoting, pollWith, noted, h]

theorem pollNoting_fst : (pollNoting path history timeout cancel n at' times).1 =
    pollFrom path history timeout cancel n at' := by
  induction n generalizing at' times with
  | zero => rfl
  | succ n ih =>
    rw [pollFrom_succ]
    cases h : ending? path timeout cancel at' (history at') with
    | none => rw [pollNoting_of_none h, ih, Option.getD_none]
    | some r => rw [pollNoting_of_some h, Option.getD_some]

/-- From a poll instant on, every attempt but the last is followed by the next one. -/
theorem pollNoting_run (hle : pollTime i ≤ timeout) (hc : ∀ c ∈ cancel, pollTime i ≤ c)
    (hn : timeout < pollTime (i + n)) : ∃ k r,
      (∀ j < k, Waits history timeout cancel (i + j)) ∧
      Stops path history timeout cancel (i + k) r ∧
      pollNoting path history timeout cancel n (pollTime i) times =
        (r, times ++ (List.range' i (k + 1)).map pollTime) := by
  induction n generalizing i times with
  | zero => exact absurd hle (Nat.not_le.mpr hn)
  | succ n ih =>
    rcases @attempt_cases path history timeout cancel i hle hc with
      ⟨r, hending, hstops⟩ | ⟨hending, hwaits⟩
    · exact ⟨0, r, by simp, hstops, pollNoting_of_some hending⟩
    · have hn' : timeout < pollTime (i + 1 + n) := by rwa [Nat.add_right_comm]
      obtain ⟨k, r, hall, hstops, hrest⟩ := ih hwaits.next_le hwaits.uncancelled hn'
      refine ⟨k + 1, r, fun j hj => ?_, ?_, ?_⟩
      · cases j with
        | zero => exact hwaits
        | succ j =>
          have := hall j (Nat.lt_of_succ_lt_succ hj)
          rwa [Nat.add_right_comm] at this
      · rwa [Nat.add_right_comm] at hstops
      · rw [pollNoting_of_none hending, ← pollTime_succ, hrest, List.append_assoc]
        rfl

/-- With room for all attempts polling goes through its schedule and stops there. -/
theorem exists_polls (path : Path) (history : LockHistory) (timeout : Duration)
    (cancel : Option Duration) (hn : timeout / pollInterval < n) : ∃ k r,
      Polls path history timeout cancel k r ∧
      pollNoting path history timeout cancel n 0 [] = (r, (List.range (k + 1)).map pollTime) := by
  have hle : pollTime 0 ≤ timeout := by simp [pollTime]
  have hc : ∀ c ∈ cancel, pollTime 0 ≤ c := by simp [pollTime]
  have hroom : timeout < pollTime (0 + n) := by
    rw [Nat.zero_add]
    exact Nat.lt_of_lt_of_le (lt_pollTime_div timeout) (Nat.mul_le_mul_right _ hn)
  obtain ⟨k, r, hwaits, hstops, hrest⟩ :=
    @pollNoting_run path history timeout cancel 0 n [] hle hc hroom
  simp only [Nat.zero_add] at hwaits hstops
  refine ⟨k, r, ⟨hwaits, hstops⟩, ?_⟩
  rw [List.range_eq_range']
  simpa [pollTime] using hrest

theorem acquire_polls (path : Path) (history : LockHistory) (timeout : Duration)
    (cancel : Option Duration) :
    ∃ k, Polls path history timeout cancel k (acquire path history timeout cancel) := by
  obtain ⟨k, r, hpolls, hrun⟩ :=
    exists_polls path history timeout cancel (Nat.lt_succ_self (timeout / pollInterval))
  have hacquire : acquire path history timeout cancel = r :=
    pollNoting_fst.symm.trans (congrArg Prod.fst hrun)
  exact ⟨k, hacquire ▸ hpolls⟩

theorem Polls.pollTime_le {k : ℕ} (h : Polls path history timeout cancel k r) :
    pollTime k ≤ timeout := by
  cases k with
  | zero => simp [pollTime]
  | succ k => exact (h.waits k (Nat.lt_succ_self k)).next_le

theorem Polls.le_of_mem {k : ℕ} (h : Polls path history timeout cancel k r) {c : Duration}
    (hc : c ∈ cancel) : pollTime k ≤ c := by
  cases k with
  | zero => simp [pollTime]
  | succ k => exact (h.waits k (Nat.lt_succ_self k)).uncancelled c hc

/-! ## How polling ends -/

/-- The first poll instant by a timeout at which an attempt is decided. -/
structure First (history : LockHistory) (timeout at' : Duration) : Prop where
  poll : pollInterval ∣ at'
  le : at' ≤ timeout
  decides : Decides (history at')
  before : ∀ t < at', pollInterval ∣ t → ¬ Decides (history t)

theorem First.unique (h : First history timeout at') (h' : First history timeout t) : at' = t := by
  rcases Nat.lt_trichotomy at' t with hlt | rfl | hlt
  · exact absurd h.decides (h'.before _ hlt h.poll)
  · rfl
  · exact absurd h'.decides (h.before _ hlt h'.poll)

inductive Ends (path : Path) (history : LockHistory) (timeout : Duration)
    (cancel : Option Duration) : Except LockError Unit × Duration → Prop
  | acquired {at' : Duration} (h : First history timeout at') (hl : history at' = .lockable)
      (hc : ∀ c ∈ cancel, at' ≤ c) : Ends path history timeout cancel (.ok (), at')
  | failed {at' : Duration} {f : LockFault} (h : First history timeout at')
      (hf : history at' = .failing f) (hc : ∀ c ∈ cancel, at' ≤ c) :
      Ends path history timeout cancel (.error (.open path f), at')
  | cancelled {c : Duration} (hc : c ∈ cancel) (hlt : c < timeout)
      (hn : ∀ t ≤ c, pollInterval ∣ t → ¬ Decides (history t)) :
      Ends path history timeout cancel (.error (.cancelled path), c)
  | timedOut (hn : ∀ t ≤ timeout, pollInterval ∣ t → ¬ Decides (history t))
      (hc : ∀ c ∈ cancel, timeout / pollInterval * pollInterval ≤ c) :
      Ends path history timeout cancel
        (.error (.timedOut path timeout), timeout / pollInterval * pollInterval)

theorem Polls.undecided {k : ℕ} (h : Polls path history timeout cancel k r)
    (hk : ¬ Decides (history (pollTime k))) (hlt : t < pollTime (k + 1)) (ht : pollInterval ∣ t) :
    ¬ Decides (history t) := by
  obtain ⟨i, rfl⟩ := exists_pollTime ht
  rcases Nat.lt_or_eq_of_le (Nat.le_of_lt_succ (lt_of_pollTime_lt hlt)) with hi | rfl
  · exact (h.waits i hi).undecided
  · exact hk

theorem Polls.first {k : ℕ} (h : Polls path history timeout cancel k r)
    (hk : Decides (history (pollTime k))) : First history timeout (pollTime k) := by
  refine ⟨Nat.dvd_mul_left _ _, h.pollTime_le, hk, fun t hlt ht => ?_⟩
  obtain ⟨i, rfl⟩ := exists_pollTime ht
  exact (h.waits i (lt_of_pollTime_lt hlt)).undecided

theorem acquire_ends (path : Path) (history : LockHistory) (timeout : Duration)
    (cancel : Option Duration) :
    Ends path history timeout cancel (acquire path history timeout cancel) := by
  obtain ⟨k, h⟩ := acquire_polls path history timeout cancel
  obtain ⟨hwaits, hstops⟩ := id h
  generalize acquire path history timeout cancel = r at h hstops
  cases hstops with
  | acquired hl => exact .acquired (h.first (Or.inl hl)) hl fun c => h.le_of_mem
  | failed hf => exact .failed (h.first (Or.inr ⟨_, hf⟩)) hf fun c => h.le_of_mem
  | cancelled hk hnext hc hle hlt =>
    refine .cancelled hc (Nat.lt_of_lt_of_le hlt hnext) fun t ht => h.undecided hk ?_
    exact Nat.lt_of_le_of_lt ht hlt
  | timedOut hk hlast =>
    subst hlast
    refine .timedOut (fun t ht => h.undecided hk ?_) fun c => h.le_of_mem
    exact Nat.lt_of_le_of_lt ht (lt_pollTime_div timeout)

end CaptureExport.Lock
