import CaptureExport.Proofs.Export.Schedule

/-! # Refusals

A terminal task is refused only while the watcher is active. When it is not, no step of any
job leads to a refusal, whatever happens to the files in between.
-/

namespace CaptureExport

namespace Move

def Phase.Unrefused : Phase → Prop
  | .removing (.refused _) | .ended (.error (.refused _)) => False
  | _ => True

variable {mover : Mover} {source : Path} {options : MoveOptions} {a : Attempt} {cancelled : Bool}
  {phase : Phase} {fs : FileSystem}

/-- A move never refuses by itself. -/
theorem step_unrefused (h : phase.Unrefused) :
    (step mover source options a cancelled phase fs).phase.Unrefused := by
  cases phase with
  | starting =>
    simp only [step, openSource]
    split <;> trivial
  | opened input =>
    simp only [step, createTarget]
    split <;> trivial
  | copying hd made =>
    simp only [step, copyOnce]
    split
    · split <;> trivial
    · trivial
    · split <;> trivial
  | waiting hd made => cases cancelled <;> trivial
  | removing e =>
    simp only [step, removePartial]
    cases e with
    | refused p => cases h
    | _ => split <;> trivial
  | deleting bytes attempts denial =>
    simp only [step, deleteSource]
    split <;> trivial
  | ended r => exact h

end Move

namespace Schedule

/-- The schedules that come about when jobs make steps in any order and at any time, while others
change the files. -/
inductive Reaches (s : Schedule) : Schedule → Prop
  | refl : Reaches s s
  | move {t : Schedule} {i : ℕ} {j : Job} (now : Instant) (h : Reaches s t)
      (hj : t.jobs[i]? = some j) (hr : j.result? = none) : Reaches s (t.stepJob i now j)
  | change {t : Schedule} (step : FileSystem.Step) (h : Reaches s t) :
      Reaches s { t with files := t.files.after step }

/-- No job has been refused, and none will be. -/
structure Unrefused (s : Schedule) : Prop where
  guarded : ∀ j ∈ s.jobs, ∀ t, j.task = some t → t.isTerminal = true → s.active = false
  phase : ∀ j ∈ s.jobs, j.phase.Unrefused

variable {s t : Schedule} {i : ℕ} {now : Instant} {j : Job}

theorem task_stepJob (hj : s.jobs[i]? = some j) :
    (s.stepJob i now j).jobs.map Job.task = s.jobs.map Job.task := by
  unfold stepJob
  split
  · exact map_set_eq hj rfl
  · exact map_set_eq hj rfl

theorem Reaches.task_eq (h : s.Reaches t) : t.jobs.map Job.task = s.jobs.map Job.task := by
  induction h with
  | refl => rfl
  | move now _ hj _ ih => exact (task_stepJob hj).trans ih
  | change step _ ih => exact ih

theorem reaches_run (s : Schedule) : s.Reaches s.run :=
  (run_induction (fun _ _ now _ h hj hr _ => .move now h hj hr) Reaches.refl).1

namespace Unrefused

theorem refuses_eq_none (h : s.Unrefused) (hj : j ∈ s.jobs) : s.refuses j = none := by
  unfold refuses
  split
  · rename_i t _ ht
    refine if_neg ?_
    rintro ⟨hterminal, hactive⟩
    rw [h.guarded j hj t ht hterminal] at hactive
    cases hactive
  · rfl

theorem stepJob (h : s.Unrefused) (hj : s.jobs[i]? = some j) :
    (s.stepJob i now j).Unrefused := by
  have hm := List.mem_of_getElem? hj
  obtain ⟨a, -, -, -, hactive, -, hjobs⟩ := s.stepJob_of_not_refused (h.refuses_eq_none hm) i now
  constructor
  · intro k hk t ht hterminal
    rw [hactive]
    rw [hjobs] at hk
    rcases List.mem_or_eq_of_mem_set hk with hk | rfl
    · exact h.guarded k hk t ht hterminal
    · exact h.guarded j hm t ht hterminal
  · intro k hk
    rw [hjobs] at hk
    rcases List.mem_or_eq_of_mem_set hk with hk | rfl
    · exact h.phase k hk
    · exact Move.step_unrefused (h.phase j hm)

theorem reaches (h : s.Unrefused) (hr : s.Reaches t) : t.Unrefused := by
  induction hr with
  | refl => exact h
  | move now _ hj _ ih => exact ih.stepJob hj
  | change step _ ih => exact ⟨ih.guarded, ih.phase⟩

theorem result_ne_refused (h : s.Unrefused) (hj : j ∈ s.jobs) (p : Path) :
    j.result? ≠ some (.error (.refused p)) := by
  have hp := h.phase j hj
  intro hr
  have hsome : j.result?.isSome := by simp [hr]
  obtain ⟨r, hphase⟩ := Job.phase_eq_ended hsome
  obtain rfl : r = .error (.refused p) := by
    simpa [Job.result?, hphase, Move.Phase.result?] using hr
  rw [hphase] at hp
  exact hp

end Unrefused
end Schedule
end CaptureExport
