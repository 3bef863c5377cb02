import CaptureExport.Proofs.Export.Schedule

/-! # Moves by themselves

A schedule of one job is a move by itself: its steps depend on its phase and its time, on the files
and on what is left of the plan. The task of an exporter runs like the move of its source, with a
line before it and one after it, unless it is refused.
-/

namespace CaptureExport

namespace Move

/-- A move by itself, with all that its steps read and write. -/
structure Solo where
  phase : Phase
  time : Instant
  files : FileSystem
  plan : Plan
  cancel : Option Instant
  logs : List Log.Record

namespace Solo

def start (plan : Plan) (cancel : Option Instant) (fs : FileSystem) : Solo :=
  ⟨.starting, 0, fs, plan, cancel, []⟩

def due (delay : Duration) (x : Solo) : Instant :=
  match x.phase with
  | .waiting _ _ =>
    match x.cancel with
    | some c => min (max x.time c) (x.time + delay)
    | none => x.time + delay
  | _ => x.time

/-- The attempt of the next step, and the plan after it. -/
def upcoming (x : Solo) : Attempt × Plan :=
  match x.phase with
  | .copying _ _ => x.plan.next
  | _ => ({}, x.plan)

def cancelledAt (x : Solo) (now : Instant) : Bool :=
  match x.cancel with
  | some c => c ≤ now
  | none => false

section Run

variable (mover : Mover) (source : Path) (options : MoveOptions)

def next (x : Solo) : Solo :=
  let now := x.due mover.retry.delay
  let o := step mover source options x.upcoming.1 (x.cancelledAt now) x.phase x.files
  { phase := o.phase
    time := now
    files := o.files
    plan := x.upcoming.2
    cancel := if x.upcoming.1.cancels then some ((x.cancel.getD now).min now) else x.cancel
    logs := x.logs ++ o.logs }

def runFor : ℕ → Solo → Solo
  | 0, x => x
  | n + 1, x => if x.phase.result?.isSome then x else runFor n (x.next mover source options)

def run (x : Solo) : Solo := x.runFor mover source options (x.phase.work mover.retry.attempts)

end Run

variable {mover : Mover} {source : Path} {options : MoveOptions} {x : Solo}

theorem exists_of_result? {phase : Phase} (h : phase.result?.isSome) : ∃ r, phase = .ended r := by
  cases phase with
  | ended r => exact ⟨r, rfl⟩
  | _ => cases h

theorem work_next_lt (hr : x.phase.result? = none) :
    (x.next mover source options).phase.work mover.retry.attempts <
      x.phase.work mover.retry.attempts :=
  step_work_lt x.upcoming.1 hr

theorem run_induction {P : Solo → Prop}
    (hstep : ∀ x, P x → x.phase.result? = none → P (x.next mover source options)) (h : P x) :
    P (x.run mover source options) ∧ ∃ r, (x.run mover source options).phase = .ended r := by
  have hrun (n : ℕ) (x : Solo) (h : P x) (hw : x.phase.work mover.retry.attempts ≤ n) :
      P (x.runFor mover source options n) ∧
        ∃ r, (x.runFor mover source options n).phase = .ended r := by
    induction n generalizing x with
    | zero =>
      refine ⟨h, exists_of_result? (Option.isSome_iff_ne_none.mpr fun hr => ?_)⟩
      exact absurd (Schedule.work_pos hr) (Nat.not_lt.mpr hw)
    | succ n ih =>
      simp only [runFor]
      split
      · rename_i hr
        exact ⟨h, exists_of_result? hr⟩
      · rename_i hr
        have hr' : x.phase.result? = none := by simpa using hr
        exact ih _ (hstep x h hr') (Nat.le_of_lt_succ (Nat.lt_of_lt_of_le (work_next_lt hr') hw))
  exact hrun _ x h (Nat.le_refl _)

theorem next_ne_starting (hr : x.phase.result? = none) :
    (x.next mover source options).phase ≠ .starting := by
  intro he
  have hlt : (x.next mover source options).phase.work mover.retry.attempts < _ := work_next_lt hr
  rw [he] at hlt
  cases hp : x.phase <;> simp only [hp, Phase.work] at hlt <;> omega

/-! ## Schedules of one job -/

def framed (task : Option ExportTask) (phase : Phase) (logs : List Log.Record) :
    List Log.Record :=
  match task, phase with
  | none, _ => logs
  | some _, .starting => logs
  | some t, .ended r => t.startRecord :: logs ++ [t.endRecord r]
  | some t, _ => t.startRecord :: logs

theorem framed_append {task : Option ExportTask} {steps : ℕ} {o : Outcome}
    (hr : x.phase.result? = none) (hne : o.phase ≠ .starting)
    (hsilent : x.phase = .starting → x.logs = []) :
    framed task x.phase x.logs ++
        Schedule.framed ⟨source, options, task, x.phase, x.time, steps⟩ o =
      framed task o.phase (x.logs ++ o.logs) := by
  cases task with
  | none => rfl
  | some t =>
    -- the line before the first step precedes the lines of the move, of which there are none yet
    cases hp : x.phase with
    | starting =>
      rw [hsilent hp]
      cases ho : o.phase <;> simp_all [framed, Schedule.framed]
    | ended r => simp [hp, Phase.result?] at hr
    | _ => cases ho : o.phase <;> simp_all [framed, Schedule.framed]

variable (mover source options) in
/-- A schedule whose only job is a move, for a task that is not refused. -/
structure Matches (task : Option ExportTask) (s : Schedule) (x : Solo) : Prop where
  mover_eq : s.mover = mover
  reachable : s.reachable = true
  willing : ∀ t, task = some t → ¬ (t.isTerminal ∧ s.active)
  job : ∃ steps, s.jobs = [⟨source, options, task, x.phase, x.time, steps⟩]
  files_eq : s.files = x.files
  plan_eq : s.plan = x.plan
  cancel_eq : s.cancel = x.cancel
  logs_eq : s.logs = framed task x.phase x.logs
  silent : x.phase = .starting → x.logs = []

namespace Matches

variable {task : Option ExportTask} {s : Schedule}

theorem next?_eq_none (h : Matches mover source options task s x) (hr : x.phase.result?.isSome) :
    s.next? = none := by
  obtain ⟨steps, hjobs⟩ := h.job
  simp [Schedule.next?, Schedule.nextDue, Schedule.nextDue.find, hjobs, Job.result?, hr]

/-- The schedule and the move make the same step. -/
theorem next (h : Matches mover source options task s x) (hr : x.phase.result? = none) :
    ∃ t, s.next? = some t ∧ Matches mover source options task t (x.next mover source options) := by
  obtain ⟨steps, hjobs⟩ := h.job
  have hnext : s.next? = some (s.stepJob 0 (x.due mover.retry.delay)
      ⟨source, options, task, x.phase, x.time, steps⟩) := by
    simp only [Schedule.next?, Schedule.nextDue, Schedule.nextDue.find, hjobs, Job.result?, hr]
    simp only [Job.dueAt, h.mover_eq, h.cancel_eq]
    rfl
  have hrefuses : s.refuses ⟨source, options, task, x.phase, x.time, steps⟩ = none := by
    unfold Schedule.refuses
    cases task with
    | none => split <;> simp_all
    | some t =>
      have hw := h.willing t rfl
      split
      · rename_i he
        cases he
        rw [if_neg hw]
      · rfl
  refine ⟨_, hnext, ?_⟩
  have hcancelled (now : Instant) : s.cancelledAt now = x.cancelledAt now := by
    rw [Schedule.cancelledAt, h.cancel_eq]
    rfl
  have hne : (x.next mover source options).phase ≠ .starting := next_ne_starting hr
  unfold Schedule.stepJob
  rw [hrefuses]
  simp only [hcancelled, h.mover_eq, h.files_eq, h.plan_eq, h.cancel_eq, hjobs,
    h.reachable, and_true]
  constructor
  case mover_eq => rfl
  case reachable => rfl
  case willing => exact h.willing
  case job => exact ⟨_, rfl⟩
  case files_eq => rfl
  case plan_eq => rfl
  case cancel_eq => rfl
  case logs_eq =>
    rw [h.logs_eq]
    exact framed_append hr hne h.silent
  case silent => exact fun he => absurd he hne

theorem runFor (h : Matches mover source options task s x) (n : ℕ) :
    Matches mover source options task (s.runFor n) (x.runFor mover source options n) := by
  induction n generalizing s x with
  | zero => exact h
  | succ n ih =>
    simp only [Schedule.runFor, Solo.runFor]
    cases hr : x.phase.result? with
    | some r =>
      rw [h.next?_eq_none (by simp [hr])]
      exact h
    | none =>
      obtain ⟨t, ht, hm⟩ := h.next hr
      rw [ht]
      exact ih hm

theorem run (h : Matches mover source options task s x) :
    Matches mover source options task s.run (x.run mover source options) := by
  obtain ⟨steps, hjobs⟩ := h.job
  have hwork : s.work = x.phase.work mover.retry.attempts := by
    simp [Schedule.work, hjobs, h.mover_eq]
  rw [Schedule.run, hwork]
  exact h.runFor _

theorem first_eq (h : Matches mover source options task s x) {r : Except MoveError MoveReport}
    (hr : x.phase = .ended r) :
    s.first 0 source = ⟨r, x.time, x.files, x.plan, framed task x.phase x.logs⟩ := by
  obtain ⟨steps, hjobs⟩ := h.job
  simp [Schedule.first, hjobs, Job.result?, hr, Phase.result?, h.files_eq, h.plan_eq, h.logs_eq]

end Matches
end Solo
end Move

open Move

variable {m : Mover} {source : Path} {options : MoveOptions} {plan : Plan}
  {cancel : Option Instant} {fs : FileSystem} {x : Exporter} {active : Bool} {t : ExportTask}

/-- A move goes on until it has ended, and what every step preserves holds at its end. -/
theorem Mover.move_induction {P : Solo → Prop} (hstart : P (.start plan cancel fs))
    (hstep : ∀ y, P y → y.phase.result? = none → P (y.next m source options)) :
    ∃ y r, P y ∧ y.phase = .ended r ∧
      m.move source options plan cancel fs = ⟨r, y.time, y.files, y.plan, y.logs⟩ := by
  obtain ⟨hp, r, hr⟩ := Solo.run_induction hstep hstart
  have hm : Solo.Matches m source options none {
      mover := m, active := false, reachable := true, jobs := [.ofMove source options 0]
      files := fs, plan := plan, cancel := cancel, logs := [] } (.start plan cancel fs) :=
    ⟨rfl, rfl, fun _ ht => (nomatch ht), ⟨0, rfl⟩, rfl, rfl, rfl, rfl, fun _ => rfl⟩
  exact ⟨_, r, hp, hr, hm.run.first_eq hr⟩

/-- A task that is not refused runs like the move of its source, with a line before it and one
after it. -/
theorem Exporter.run_eq_move (h : ¬ (t.isTerminal ∧ active)) :
    x.run active t plan cancel fs =
      { x.mover.move t.source (x.optionsFor t) plan cancel fs with
        logs := t.startRecord :: (x.mover.move t.source (x.optionsFor t) plan cancel fs).logs ++
          [t.endRecord (x.mover.move t.source (x.optionsFor t) plan cancel fs).result] } := by
  have hm (task : Option ExportTask) (active : Bool)
      (hw : ∀ u, task = some u → ¬ (u.isTerminal ∧ active)) :
      Solo.Matches x.mover t.source (x.optionsFor t) task {
        mover := x.mover, active := active, reachable := true
        jobs := [⟨t.source, x.optionsFor t, task, .starting, 0, 0⟩]
        files := fs, plan := plan, cancel := cancel, logs := [] } (.start plan cancel fs) :=
    ⟨rfl, rfl, hw, ⟨0, rfl⟩, rfl, rfl, rfl, by cases task <;> rfl, fun _ => rfl⟩
  obtain ⟨r, hr⟩ :
      ∃ r, ((Solo.start plan cancel fs).run x.mover t.source (x.optionsFor t)).phase = .ended r :=
    (Solo.run_induction (P := fun _ => True) (fun _ _ _ => trivial) trivial).2
  have hmove : x.mover.move t.source (x.optionsFor t) plan cancel fs = _ :=
    (hm none false (fun u hu => by cases hu)).run.first_eq hr
  have htask : x.run active t plan cancel fs = _ :=
    (hm (some t) active (fun u hu => Option.some.inj hu ▸ h)).run.first_eq hr
  rw [htask, hmove, hr]
  rfl

/-- A terminal task is refused while the watcher is active: it reads and writes nothing. -/
theorem Exporter.run_refused (ht : t.isTerminal = true) :
    x.run true t plan cancel fs =
      ⟨.error (.refused t.source), 0, fs, plan, [t.refusalRecord]⟩ := by
  -- the job has not made a step yet, or it has been refused and has ended
  let P (s : Schedule) : Prop := s.active = true ∧ s.files = fs ∧ s.plan = plan ∧
    ((s.jobs = [Job.ofTask x t 0] ∧ s.logs = []) ∨ ∃ steps, s.jobs = [⟨t.source, x.optionsFor t,
      some t, .ended (.error (.refused t.source)), 0, steps⟩] ∧ s.logs = [t.refusalRecord])
  have hstep (s : Schedule) (i : ℕ) (now : Instant) (j : Job) (h : P s)
      (hj : s.jobs[i]? = some j) (hr : j.result? = none)
      (hdue : now = j.dueAt s.mover.retry.delay s.cancel) : P (s.stepJob i now j) := by
    obtain ⟨hactive, hfiles, hplan, ⟨hjobs, hlogs⟩ | ⟨steps, hjobs, -⟩⟩ := h
    · obtain ⟨rfl, rfl⟩ : i = 0 ∧ Job.ofTask x t 0 = j := by
        simpa [hjobs, List.getElem?_singleton] using hj
      have hrefuses : s.refuses (Job.ofTask x t 0) = some t := by
        simp [Schedule.refuses, Job.ofTask, ht, hactive]
      unfold Schedule.stepJob
      rw [hrefuses]
      exact ⟨hactive, hfiles, hplan, Or.inr ⟨1, by simp [hjobs, hdue, Job.ofTask, Job.dueAt],
        by simp [hlogs]⟩⟩
    · obtain ⟨-, rfl⟩ : i = 0 ∧ _ = j := by simpa [hjobs, List.getElem?_singleton] using hj
      cases hr
  obtain ⟨⟨-, hfiles, hplan, hjobs⟩, hended⟩ := Schedule.run_induction hstep (s := {
    mover := x.mover, active := true, reachable := true, jobs := [.ofTask x t 0], files := fs
    plan := plan, cancel := cancel, logs := [] }) ⟨rfl, rfl, rfl, Or.inl ⟨rfl, rfl⟩⟩
  rcases hjobs with ⟨hjobs, -⟩ | ⟨steps, hjobs, hlogs⟩
  · have := hended (Job.ofTask x t 0) (by simp [hjobs])
    cases this
  · simp [Exporter.run, Schedule.first, hfiles, hplan, hjobs, hlogs, Job.result?, Phase.result?]

end CaptureExport
