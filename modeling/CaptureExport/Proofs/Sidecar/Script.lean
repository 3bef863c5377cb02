import CaptureExport.Proofs.Export.Schedule
import CaptureExport.Sidecar.Script

/-! # Scripted runs as runs

A scripted run lets many things happen between two commands. Each of them is one of the
occurrences of a run, so whatever holds of every run holds of scripted ones.
-/

namespace CaptureExport

namespace Schedule

def withLines (logs : List Log.Record) (s : Schedule) : Schedule :=
  { s with logs := logs ++ s.logs }

variable {s t : Schedule} {logs : List Log.Record}

theorem stepJob_withLines (i : ℕ) (now : Instant) (j : Job) :
    (s.withLines logs).stepJob i now j = (s.stepJob i now j).withLines logs := by
  have hr : (s.withLines logs).refuses j = s.refuses j := rfl
  unfold stepJob
  rw [hr]
  cases s.refuses j with
  | some t => simp [withLines]
  | none =>
    simp only [withLines, List.append_assoc]
    rfl

theorem find_withLines (i : ℕ) (jobs : List Job) :
    nextDue.find (s.withLines logs) i jobs = nextDue.find s i jobs := by
  induction jobs generalizing i with
  | nil => rfl
  | cons j jobs ih =>
    simp only [nextDue.find, ih]
    rfl

theorem next?_withLines : (s.withLines logs).next? = s.next?.map (withLines logs) := by
  have hdue : (s.withLines logs).nextDue = s.nextDue := by
    unfold nextDue
    exact congrArg _ (find_withLines 0 s.jobs)
  unfold next?
  rw [hdue]
  cases s.nextDue with
  | none => rfl
  | some d =>
    have hjobs : (s.withLines logs).jobs[d.1]? = s.jobs[d.1]? := rfl
    simp only [Option.bind_eq_bind, Option.bind_some, hjobs]
    cases s.jobs[d.1]? with
    | none => rfl
    | some j => simp [stepJob_withLines]

theorem runFor_withLines (n : ℕ) : (s.withLines logs).runFor n = (s.runFor n).withLines logs := by
  induction n generalizing s with
  | zero => rfl
  | succ n ih =>
    simp only [runFor, next?_withLines]
    cases s.next? with
    | none => rfl
    | some t => exact ih

theorem stepJob_shared (h : s.reachable = false) (i : ℕ) (now : Instant) (j : Job) :
    (s.stepJob i now j).mover = s.mover ∧ (s.stepJob i now j).active = s.active ∧
      (s.stepJob i now j).reachable = false ∧ (s.stepJob i now j).cancel = s.cancel := by
  unfold stepJob
  split
  · exact ⟨rfl, rfl, h, rfl⟩
  · exact ⟨rfl, rfl, h, by simp [h]⟩

end Schedule

namespace Sidecar

variable {x : Sidecar} {now : Instant} {s t : State}

def Occurrence.commanded : Occurrence → Bool
  | .change _ | .signal _ | .lateSignal _ => true
  | _ => false

def Command.occurrence? : Command → Option Occurrence
  | .change c => some (.change c)
  | .rest => none
  | .signal g => some (.signal g)

/-- One state comes after another in a run in which nothing is commanded but what is given. -/
def Later (x : Sidecar) (now : Instant) (s : State) (given : List Occurrence) (t : State) : Prop :=
  ∃ os : List Occurrence, os.filter Occurrence.commanded = given ∧ t = x.steps now s os

namespace Later

variable {given more : List Occurrence} {o : Occurrence}

theorem refl (s : State) : Later x now s [] s := ⟨[], rfl, rfl⟩

theorem trans {u : State} (h : Later x now s given t) (h' : Later x now t more u) :
    Later x now s (given ++ more) u := by
  obtain ⟨os, rfl, rfl⟩ := h
  obtain ⟨os', rfl, rfl⟩ := h'
  exact ⟨os ++ os', List.filter_append .., (List.foldl_append ..).symm⟩

theorem then_inside {u : State} (h : Later x now s given t) (h' : Later x now t [] u) :
    Later x now s given u := List.append_nil given ▸ h.trans h'

theorem inside (s : State) (ho : o.commanded = false) : Later x now s [] (x.step now s o) :=
  ⟨[o], by simp [ho], rfl⟩

theorem outside (s : State) (ho : o.commanded = true) : Later x now s [o] (x.step now s o) :=
  ⟨[o], by simp [ho], rfl⟩

theorem runFor (n : ℕ) (s : State) :
    Later x now s [] (s.withSchedule ((x.schedule s).runFor n)) := by
  have hstay (s : State) : s.withSchedule (x.schedule s) = s := by
    simp [State.withSchedule, schedule]
  induction n generalizing s with
  | zero =>
    rw [Schedule.runFor, hstay]
    exact refl s
  | succ n ih =>
    simp only [Schedule.runFor]
    cases hn : (x.schedule s).next? with
    | none =>
      simp only [hstay]
      exact refl s
    | some d =>
      obtain ⟨i, due, j, hj, hr, rfl, hd⟩ := Schedule.next?_eq_some hn
      have hfirst : x.step now s (.exportStep i) = s.withSchedule d := by
        have hj' : s.exports[i]? = some j := hj
        rw [hd]
        simp [Sidecar.step, exportStep, hj', hr]
      obtain ⟨hmover, hactive, hreachable, hcancel⟩ :
          d.mover = x.exporter.mover ∧ d.active = s.trigger.isActive ∧ d.reachable = false ∧
            d.cancel = (x.schedule s).cancel := by
        rw [hd]
        exact Schedule.stepJob_shared rfl i _ j
      -- The schedule goes on as the state after the step would have it, with its lines before.
      have hnext : d = (x.schedule (s.withSchedule d)).withLines d.logs := by
        cases d
        simp only at hmover hactive hreachable hcancel
        simp [Schedule.withLines, schedule, State.withSchedule, hmover, hactive, hreachable,
          hcancel]
        rfl
      have hrest : s.withSchedule (d.runFor n) = (s.withSchedule d).withSchedule
          ((x.schedule (s.withSchedule d)).runFor n) := by
        conv_lhs => rw [hnext]
        rw [Schedule.runFor_withLines]
        simp [State.withSchedule, Schedule.withLines]
      dsimp only
      rw [hrest, ← hfirst]
      exact (inside s rfl).then_inside (ih _)

theorem takeNotices (n : ℕ) (s : State) : Later x now s [] (x.takeNotices n s) := by
  induction n generalizing s with
  | zero => exact refl s
  | succ n ih =>
    have hfirst : Later x now s [] (x.takeNotice s) := @inside x now .notice s rfl
    exact hfirst.then_inside (ih _)

theorem poll (s : State) : Later x now s [] (x.poll s) := @inside x now .poll s rfl

theorem settle (s : State) : Later x now s [] (x.settle s) :=
  ((takeNotices s.inbox.length s).then_inside (runFor _ _)).then_inside (poll _)

theorem perform (s : State) (c : Command) :
    Later x now s c.occurrence?.toList (x.perform now s c) := by
  cases c with
  | change c => exact @outside x now (.change c) s rfl
  | rest => exact settle s
  | signal g =>
    have hsignal : Later x now (x.settle s) [.signal g] (x.signal now g (x.settle s)) :=
      @outside x now (.signal g) _ rfl
    exact ((settle s).trans hsignal).then_inside (poll _)

theorem script (commands : List Command) (s : State) :
    Later x now s (commands.filterMap Command.occurrence?) (commands.foldl (x.perform now) s) := by
  induction commands generalizing s with
  | nil => exact refl s
  | cons c commands ih =>
    have hgiven : (c :: commands).filterMap Command.occurrence? =
        c.occurrence?.toList ++ commands.filterMap Command.occurrence? := by
      cases h : c.occurrence? <;> simp [h]
    rw [hgiven]
    exact (perform s c).trans (ih _)

end Later

/-- A script and the run it makes: all its commands are carried out, and nothing else is commanded
before the deadline passes. -/
structure Performs (x : Sidecar) (now : Instant) (s : State) (commands : List Command)
    (os : List Occurrence) : Prop where
  commanded : os.filter Occurrence.commanded = commands.filterMap Command.occurrence?
  run_eq : x.run now commands s =
    if (x.steps now s (os ++ [.deadline])).trigger.cancelled then
      some (x.finish (x.steps now s (os ++ [.deadline]))) else none

/-- Every script makes some run. -/
theorem exists_performs (x : Sidecar) (now : Instant) (commands : List Command) (s : State) :
    ∃ os, Performs x now s commands os := by
  obtain ⟨os, hgiven, hos⟩ : Later x now s (commands.filterMap Command.occurrence?)
      (x.settle (commands.foldl (x.perform now) s)) :=
    (Later.script commands s).then_inside (Later.settle _)
  have hend : x.expire (x.settle (commands.foldl (x.perform now) s)) =
      x.steps now s (os ++ [.deadline]) := by
    rw [hos, steps, steps, List.foldl_append]
    rfl
  refine ⟨os, hgiven, ?_⟩
  rw [← hend]
  rfl

theorem Performs.signal_mem {commands : List Command} {os : List Occurrence} {g : Signal}
    (h : Performs x now s commands os) (hg : .signal g ∈ commands) : .signal g ∈ os := by
  have hmem : .signal g ∈ os.filter Occurrence.commanded := by
    rw [h.commanded]
    exact List.mem_filterMap.mpr ⟨_, hg, rfl⟩
  exact List.mem_of_mem_filter hmem

end Sidecar
end CaptureExport
