import CaptureExport.Export.Schedule
import CaptureExport.Proofs.Export.Turn

/-! # Runs of schedules

The job that moves next has not ended, and its step leaves less to do. So a run ends with every
job, and what every step preserves holds at its end.
-/

namespace CaptureExport

theorem Job.phase_eq_ended {j : Job} (h : j.result?.isSome) : ∃ r, j.phase = .ended r := by
  unfold result? at h
  cases hp : j.phase with
  | ended r => exact ⟨r, rfl⟩
  | _ => simp [hp, Move.Phase.result?] at h

theorem map_set_eq {α : Type} {f : Job → α} {jobs : List Job} {i : ℕ} {j j' : Job}
    (hj : jobs[i]? = some j) (hf : f j' = f j) : (jobs.set i j').map f = jobs.map f := by
  obtain ⟨hi, rfl⟩ := List.getElem?_eq_some_iff.mp hj
  rw [List.map_set, hf, ← List.getElem_map f (h := by simpa using hi), List.set_getElem_self]

theorem getElem?_set_cases {jobs : List Job} {i k : ℕ} {j' x : Job}
    (hk : (jobs.set i j')[k]? = some x) : k = i ∧ x = j' ∨ k ≠ i ∧ jobs[k]? = some x := by
  rw [List.getElem?_set] at hk
  split at hk
  · rename_i he
    split at hk
    · exact Or.inl ⟨he.symm, (Option.some.inj hk).symm⟩
    · cases hk
  · rename_i hne
    exact Or.inr ⟨fun he => hne he.symm, hk⟩

theorem mem_set_self {jobs : List Job} {i : ℕ} {j j' : Job} (hj : jobs[i]? = some j) :
    j' ∈ jobs.set i j' := by
  refine List.mem_iff_getElem?.mpr ⟨i, ?_⟩
  rw [List.getElem?_set_self (List.getElem?_eq_some_iff.mp hj).1]

namespace Schedule

variable {s t : Schedule} {i k : ℕ} {now due : Instant} {j : Job} {steps : ℕ} {jobs : List Job}

theorem refuses_of_inactive (h : s.active = false) (j : Job) : s.refuses j = none := by
  unfold refuses
  rw [h]
  split <;> simp

theorem find_eq_some (h : nextDue.find s i jobs = some (k, due, steps)) :
    ∃ j, i ≤ k ∧ jobs[k - i]? = some j ∧ j.result? = none ∧
      due = j.dueAt s.mover.retry.delay s.cancel := by
  induction jobs generalizing i k due steps with
  | nil => cases h
  | cons j jobs ih =>
    have hlater {k due steps} (h : nextDue.find s (i + 1) jobs = some (k, due, steps)) :
        ∃ j', i ≤ k ∧ (j :: jobs)[k - i]? = some j' ∧ j'.result? = none ∧
          due = j'.dueAt s.mover.retry.delay s.cancel := by
      obtain ⟨j', hk, hj, hr⟩ := ih h
      refine ⟨j', Nat.le_of_succ_le hk, ?_, hr⟩
      rw [show k - i = (k - (i + 1)) + 1 by omega, List.getElem?_cons_succ]
      exact hj
    have hhere (hj : ¬ j.result?.isSome) :
        ∃ j', i ≤ i ∧ (j :: jobs)[i - i]? = some j' ∧ j'.result? = none ∧
          j.dueAt s.mover.retry.delay s.cancel = j'.dueAt s.mover.retry.delay s.cancel :=
      ⟨j, Nat.le_refl i, by simp, by simpa using hj, rfl⟩
    simp only [nextDue.find] at h
    split at h
    · exact hlater h
    · rename_i hj
      split at h
      · cases h
        exact hhere hj
      · rename_i hl
        split at h
        · cases h
          exact hhere hj
        · cases h
          exact hlater hl

theorem find_eq_none (h : nextDue.find s i jobs = none) : ∀ j ∈ jobs, j.result?.isSome := by
  induction jobs generalizing i with
  | nil => simp
  | cons j jobs ih =>
    simp only [nextDue.find] at h
    split at h
    · rename_i hj
      exact List.forall_mem_cons.mpr ⟨hj, ih h⟩
    · split at h
      · cases h
      · split at h <;> cases h

theorem next?_eq_some (h : s.next? = some t) :
    ∃ i now j, s.jobs[i]? = some j ∧ j.result? = none ∧
      now = j.dueAt s.mover.retry.delay s.cancel ∧ t = s.stepJob i now j := by
  unfold next? at h
  cases hd : s.nextDue with
  | none => simp [hd] at h
  | some d =>
    obtain ⟨i, now⟩ := d
    obtain ⟨⟨k, due, steps⟩, hf, he⟩ := Option.map_eq_some_iff.mp hd
    cases he
    obtain ⟨j, -, hj, hr, hdue⟩ := find_eq_some hf
    rw [Nat.sub_zero] at hj
    simp only [hd, Option.bind_eq_bind, Option.bind_some, hj] at h
    exact ⟨_, _, j, hj, hr, hdue, (Option.some.inj h).symm⟩

theorem next?_eq_none (h : s.next? = none) : ∀ j ∈ s.jobs, j.result?.isSome := by
  unfold next? at h
  cases hd : s.nextDue with
  | none => exact find_eq_none (Option.map_eq_none_iff.mp hd)
  | some d =>
    obtain ⟨i, now⟩ := d
    obtain ⟨⟨k, due, steps⟩, hf, he⟩ := Option.map_eq_some_iff.mp hd
    cases he
    obtain ⟨j, -, hj, -⟩ := find_eq_some hf
    rw [Nat.sub_zero] at hj
    simp [hd, hj] at h

theorem sum_set_lt {f : Job → ℕ} {j' : Job} (hj : jobs[i]? = some j) (hlt : f j' < f j) :
    (jobs.set i j').foldr (fun j n => f j + n) 0 < jobs.foldr (fun j n => f j + n) 0 := by
  induction jobs generalizing i with
  | nil => simp at hj
  | cons k jobs ih =>
    cases i with
    | zero =>
      obtain rfl : k = j := by simpa using hj
      simp only [List.set_cons_zero, List.foldr_cons]
      omega
    | succ i =>
      have := ih (by simpa using hj)
      simp only [List.set_cons_succ, List.foldr_cons]
      omega

theorem work_pos {phase : Move.Phase} {attempts : ℕ} (hr : phase.result? = none) :
    0 < phase.work attempts := by
  cases phase with
  | ended r => cases hr
  | _ => exact Nat.succ_pos _

theorem work_stepJob_lt (hj : s.jobs[i]? = some j) (hr : j.result? = none) :
    (s.stepJob i now j).work < s.work := by
  unfold stepJob
  split
  · exact sum_set_lt hj (work_pos hr)
  · exact sum_set_lt hj (Move.step_work_lt _ hr)

theorem mem_plan_next {plan : Plan} : (plan.next.1 = {} ∨ plan.next.1 ∈ plan) ∧
    ∀ a ∈ plan.next.2, a ∈ plan := by
  cases plan with
  | nil => exact ⟨Or.inl rfl, fun a ha => ha⟩
  | cons a plan => exact ⟨Or.inr List.mem_cons_self, fun b hb => List.mem_cons_of_mem a hb⟩

theorem stepJob_of_not_refused (h : s.refuses j = none) (i : ℕ) (now : Instant) :
    ∃ a, (a = {} ∨ a ∈ s.plan) ∧ (∀ b ∈ (s.stepJob i now j).plan, b ∈ s.plan) ∧
      (s.stepJob i now j).mover = s.mover ∧ (s.stepJob i now j).active = s.active ∧
      (s.stepJob i now j).files = (Move.step s.mover j.source j.options a (s.cancelledAt now)
        j.phase s.files).files ∧
      (s.stepJob i now j).jobs = s.jobs.set i { j with
        phase := (Move.step s.mover j.source j.options a (s.cancelledAt now) j.phase s.files).phase
        time := now
        steps := j.steps + 1 } := by
  unfold stepJob
  rw [h]
  cases hp : j.phase with
  | copying hd made =>
    obtain ⟨ha, hb⟩ := @mem_plan_next s.plan
    exact ⟨s.plan.next.1, ha, hb, rfl, rfl, rfl, rfl⟩
  | _ => exact ⟨{}, Or.inl rfl, fun b hb => hb, rfl, rfl, rfl, rfl⟩

/-- A run ends with every job, and what every step preserves holds at its end. -/
theorem run_induction {P : Schedule → Prop}
    (hstep : ∀ s i now j, P s → s.jobs[i]? = some j → j.result? = none →
      now = j.dueAt s.mover.retry.delay s.cancel → P (s.stepJob i now j))
    (h : P s) : P s.run ∧ ∀ j ∈ s.run.jobs, j.result?.isSome := by
  have hrun (n : ℕ) (s : Schedule) (h : P s) (hw : s.work ≤ n) :
      P (s.runFor n) ∧ ∀ j ∈ (s.runFor n).jobs, j.result?.isSome := by
    induction n generalizing s with
    | zero =>
      refine ⟨h, ?_⟩
      cases hn : s.next? with
      | none => exact next?_eq_none hn
      | some t =>
        obtain ⟨i, now, j, hj, hr, -, rfl⟩ := next?_eq_some hn
        have hlt : (s.stepJob i now j).work < s.work := work_stepJob_lt hj hr
        omega
    | succ n ih =>
      simp only [runFor]
      cases hn : s.next? with
      | none => exact ⟨h, next?_eq_none hn⟩
      | some t =>
        obtain ⟨i, now, j, hj, hr, hdue, rfl⟩ := next?_eq_some hn
        have hlt : (s.stepJob i now j).work < s.work := work_stepJob_lt hj hr
        exact ih _ (hstep s i now j h hj hr hdue) (by omega)
  exact hrun s.work s h (Nat.le_refl _)

end Schedule
end CaptureExport
