import CaptureExport.Export.Task

/-! # Schedules

Several moves run side by side in lock step: of all jobs, the next to move is the one that is
ready first, among those the one that has made the fewest steps, and then the one submitted first.
Steps take no time; only the wait between two attempts does.
-/

namespace CaptureExport

/-- A move under way, with the task it belongs to, if any. -/
structure Job where
  source : Path
  options : MoveOptions
  task : Option ExportTask
  phase : Move.Phase
  time : Instant
  steps : Nat

namespace Job

def ofMove (source : Path) (options : MoveOptions) (now : Instant) : Job :=
  ⟨source, options, none, .starting, now, 0⟩

def ofTask (x : Exporter) (t : ExportTask) (now : Instant) : Job :=
  ⟨t.source, x.optionsFor t, some t, .starting, now, 0⟩

def result? (j : Job) : Option (Except MoveError MoveReport) := j.phase.result?

/-- When the next step of a job is due: at once, or at the end of a wait, which is cut short by
cancellation. -/
def dueAt (delay : Duration) (cancel : Option Instant) (j : Job) : Instant :=
  match j.phase with
  | .waiting _ _ =>
    match cancel with
    | some c => min (max j.time c) (j.time + delay)
    | none => j.time + delay
  | _ => j.time

end Job

/-- Jobs that run side by side, with everything they share. Their token may be cancelled from
outside at an instant, and by the copier when it is reachable. -/
structure Schedule where
  mover : Mover
  active : Bool
  reachable : Bool
  jobs : List Job
  files : FileSystem
  plan : Plan
  cancel : Option Instant
  logs : List Log.Record

namespace Schedule

def nextDue (s : Schedule) : Option (Nat × Instant) :=
  let rec find : Nat → List Job → Option (Nat × Instant × Nat)
    | _, [] => none
    | i, j :: r =>
      let later := find (i + 1) r
      if j.result?.isSome then later
      else
        let due := j.dueAt s.mover.retry.delay s.cancel
        match later with
        | none => some (i, due, j.steps)
        | some (i', due', steps') =>
          if due < due' ∨ (due = due' ∧ j.steps ≤ steps') then some (i, due, j.steps)
          else some (i', due', steps')
  (find 0 s.jobs).map fun p => (p.1, p.2.1)

def cancelledAt (s : Schedule) (now : Instant) : Bool :=
  match s.cancel with
  | some c => c ≤ now
  | none => false

/-- The lines around a step: those of the task before its first step and after its last one. -/
def framed (j : Job) (o : Move.Outcome) : List Log.Record :=
  match j.task with
  | none => o.logs
  | some t =>
    let before :=
      match j.phase with
      | .starting => [t.startRecord]
      | _ => []
    let after :=
      match o.phase with
      | .ended r => [t.endRecord r]
      | _ => []
    before ++ o.logs ++ after

def refuses (s : Schedule) (j : Job) : Option ExportTask :=
  match j.phase, j.task with
  | .starting, some t => if t.isTerminal ∧ s.active then some t else none
  | _, _ => none

def stepJob (s : Schedule) (i : Nat) (now : Instant) (j : Job) : Schedule :=
  match s.refuses j with
  | some t =>
    let j := { j with
      phase := .ended (.error (.refused j.source)), time := now, steps := j.steps + 1 }
    { s with jobs := s.jobs.set i j, logs := s.logs ++ [t.refusalRecord] }
  | none =>
    let (a, plan) :=
      match j.phase with
      | .copying _ _ => s.plan.next
      | _ => ({}, s.plan)
    let o := Move.step s.mover j.source j.options a (s.cancelledAt now) j.phase s.files
    { s with
      jobs := s.jobs.set i { j with phase := o.phase, time := now, steps := j.steps + 1 }
      files := o.files
      plan := plan
      cancel := if a.cancels ∧ s.reachable then some ((s.cancel.getD now).min now) else s.cancel
      logs := s.logs ++ framed j o }

def work (s : Schedule) : Nat :=
  s.jobs.foldr (fun j n => j.phase.work s.mover.retry.attempts + n) 0

/-- The schedule after the step that is due next, unless every job has ended. -/
def next? (s : Schedule) : Option Schedule := do
  let (i, now) ← s.nextDue
  let j ← s.jobs[i]?
  some (s.stepJob i now j)

def runFor : Nat → Schedule → Schedule
  | 0, s => s
  | n + 1, s =>
    match s.next? with
    | none => s
    | some t => runFor n t

def run (s : Schedule) : Schedule := s.runFor s.work

end Schedule

structure MoveRun where
  result : Except MoveError MoveReport
  elapsed : Duration
  files : FileSystem
  plan : Plan
  logs : List Log.Record

def Schedule.first (s : Schedule) (start : Instant) (source : Path) : MoveRun :=
  let job := s.jobs.head?
  { result := (job.bind Job.result?).getD (.error (.cancelled source 0))
    elapsed := (job.map fun j => j.time - start).getD 0
    files := s.files
    plan := s.plan
    logs := s.logs }

namespace Mover

/-- Moves one file. The token of the call is cancelled at an instant, if at all; times are counted
from the call. -/
def move (m : Mover) (source : Path) (options : MoveOptions) (plan : Plan)
    (cancel : Option Instant) (fs : FileSystem) : MoveRun :=
  (Schedule.run {
    mover := m, active := false, reachable := true, jobs := [.ofMove source options 0], files := fs,
    plan := plan, cancel := cancel, logs := [] }).first 0 source

end Mover

namespace Exporter

def run (x : Exporter) (active : Bool) (t : ExportTask) (plan : Plan) (cancel : Option Instant)
    (fs : FileSystem) : MoveRun :=
  (Schedule.run {
    mover := x.mover, active := active, reachable := true, jobs := [.ofTask x t 0], files := fs,
    plan := plan, cancel := cancel, logs := [] }).first 0 t.source

/-- Runs tasks side by side from an instant on, with a token that they share. -/
def runAll (x : Exporter) (active : Bool) (tasks : List ExportTask) (began : Instant)
    (plan : Plan) (cancel : Option Instant) (fs : FileSystem) : Schedule :=
  Schedule.run {
    mover := x.mover, active := active, reachable := false
    jobs := tasks.map fun t => .ofTask x t began, files := fs, plan := plan, cancel := cancel
    logs := [] }

end Exporter
end CaptureExport
