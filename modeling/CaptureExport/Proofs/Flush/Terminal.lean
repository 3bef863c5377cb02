import CaptureExport.Flush.Terminal
import CaptureExport.Proofs.Export.Batch
import CaptureExport.Proofs.Export.Schedule

/-! # Exports of a flush

When every copy of a flush completes and every target can be created, every export of the flush
succeeds.
-/

namespace CaptureExport

open FileSystem

namespace Move

/-- A plain copy without a failed attempt. -/
def Smooth : Phase → Prop
  | .starting | .opened _ | .copying _ _ | .ended (.ok _) => True
  | _ => False

variable {site : Site} {name : Name} {content : Bytes} {fs gs : FileSystem} {mover : Mover}
  {a : Attempt} {phase phase' : Phase}

/-- A copy goes smoothly as long as its attempts complete and its target can be created. -/
theorem Smooth.turn (hs : Smooth phase) (hon : site.On fs) (hap : site.Apart)
    (hn : Admits site.src name) (hadm : Admits site.dst name)
    (hd : mover.destination = site.dst) (ha : a.result = .complete)
    (h : Stage site false name content fs phase)
    (ht : Turn mover (site.src.join name) {} a phase fs phase' gs) : Smooth phase' := by
  have htarget : target mover (site.src.join name) {} = site.dst.join name := by
    rw [target, Mover.targetFor_join _ hn.toIsWord, hd]
    rfl
  cases ht with
  | opens _ => trivial
  | openFails ho =>
    obtain ⟨id, hsrc, -⟩ := standing?_eq_file_iff.mp h.1
    rw [openRead_join hon.src hn hsrc] at ho
    cases ho
  | creates _ => trivial
  | createFails hc =>
    rw [htarget, createNew_join hon.dst hadm h.2] at hc
    cases hc
  | copies _ => trivial
  | fails hr _ _ _ => exact absurd ((h.1.readable hon hap h.2.2).mpr rfl) (hr ha _)
  | givesUp hr => exact absurd ((h.1.readable hon hap h.2.2).mpr rfl) (hr ha _)
  | retries => cases hs
  | cancels => cases hs
  | removes _ => cases hs
  | removeFails _ => cases hs
  | deletes _ => trivial
  | deleteFails _ => trivial
  | rests => exact hs

end Move

namespace Flush

variable {site : Site} {written : List (Name × Bytes)} {base : Location → Option Standing}
  {x : Exporter} {tasks : List ExportTask} {fs : FileSystem} {plan : Plan}

def Unhindered (a : Attempt) : Prop := a.unlinks = none ∧ a.result = .complete

structure Copying (site : Site) (x : Exporter) (written : List (Name × Bytes))
    (base : Location → Option Standing) (sources : List Path) (s : Schedule) : Prop where
  mover_eq : s.mover = x.mover
  inactive : s.active = false
  batch : Batch site {} written base s.jobs s.files
  unhindered : ∀ a ∈ s.plan, Unhindered a
  smooth : ∀ j ∈ s.jobs, Move.Smooth j.phase
  sources_eq : s.jobs.map Job.source = sources

theorem Copying.step {sources : List Path} {s : Schedule} {i : ℕ} {now : Instant} {j : Job}
    (h : Copying site x written base sources s) (hap : site.Apart)
    (hd : x.mover.destination = site.dst)
    (hadm : ∀ w ∈ written, site.src.join w.1 ∈ sources → Admits site.dst w.1)
    (hj : s.jobs[i]? = some j) : Copying site x written base sources (s.stepJob i now j) := by
  have hr : s.refuses j = none := s.refuses_of_inactive h.inactive j
  obtain ⟨a, ha, hplan, hmover, hactive, hfiles, hjobs⟩ := s.stepJob_of_not_refused hr i now
  have hu : Unhindered a := by
    rcases ha with rfl | ha
    · exact ⟨rfl, rfl⟩
    · exact h.unhindered a ha
  have hm := List.mem_of_getElem? hj
  have ho : j.options = {} := h.batch.options_eq j hm
  have hd' : s.mover.destination = site.dst := h.mover_eq ▸ hd
  rw [ho] at hfiles hjobs
  generalize hstep : Move.step s.mover j.source {} a (s.cancelledAt now) j.phase s.files = o
    at hfiles hjobs
  have hturn : Move.Turn s.mover j.source {} a j.phase s.files o.phase o.files :=
    hstep ▸ Move.step_turn hu.1
  have hbatch : Batch site {} written base (s.stepJob i now j).jobs (s.stepJob i now j).files := by
    rw [hjobs, hfiles]
    refine h.batch.set hap hj rfl ho.symm fun w _ hs hn hst => ?_
    exact hst.advances h.batch.on hap hn hd' rfl (hs ▸ hturn)
  constructor
  case mover_eq => exact hmover.trans h.mover_eq
  case inactive => exact hactive.trans h.inactive
  case batch => exact hbatch
  case unhindered => exact fun b hb => h.unhindered b (hplan b hb)
  case smooth =>
    intro k hk
    rw [hjobs] at hk
    rcases mem_set_cases h.batch.distinct hj hk with rfl | ⟨hk, -⟩
    · obtain ⟨w, hw, hs, hn, hst⟩ := h.batch.stage j hm
      have hmem : site.src.join w.1 ∈ sources := by
        rw [← h.sources_eq, ← hs]
        exact List.mem_map_of_mem hm
      exact (h.smooth j hm).turn h.batch.on hap hn (hadm w hw hmem) hd' hu.2 hst (hs ▸ hturn)
    · exact h.smooth k hk
  case sources_eq =>
    rw [hjobs]
    refine Eq.trans (map_set_eq hj ?_) h.sources_eq
    rfl

/-- Every export of a flush succeeds. -/
theorem runAll_copies {cancel : Option Instant} {began : Instant} (hap : site.Apart)
    (hd : x.mover.destination = site.dst)
    (hadm : ∀ w ∈ written, site.src.join w.1 ∈ tasks.map ExportTask.source →
      Admits site.dst w.1)
    (hplan : ∀ a ∈ plan, Unhindered a)
    (hb : Batch site {} written base (tasks.map fun t => Job.ofTask x t began) fs) :
    Copying site x written base (tasks.map ExportTask.source)
        (x.runAll false tasks began plan cancel fs) ∧
      ∀ j ∈ (x.runAll false tasks began plan cancel fs).jobs, ∃ r, j.phase = .ended (.ok r) := by
  have hstart : Copying site x written base (tasks.map ExportTask.source) {
      mover := x.mover, active := false, reachable := false
      jobs := tasks.map fun t => .ofTask x t began, files := fs, plan := plan, cancel := cancel
      logs := [] } := by
    refine ⟨rfl, rfl, hb, hplan, fun j hj => ?_, ?_⟩
    · obtain ⟨t, -, rfl⟩ := List.mem_map.mp hj
      trivial
    · rw [List.map_map]
      rfl
  obtain ⟨hc, hended⟩ := Schedule.run_induction
    (fun s i now j h hj _ _ => h.step hap hd hadm hj) hstart
  refine ⟨hc, fun j hj => ?_⟩
  obtain ⟨r, hp⟩ := Job.phase_eq_ended (hended j hj)
  have hs := hc.smooth j hj
  rw [hp] at hs
  cases r with
  | ok report => exact ⟨report, hp⟩
  | error e => cases hs

def exports (st : Setting) (plan : Plan) (fs : FileSystem) (began : Duration) : Schedule where
  mover := st.exporter.mover
  active := st.active
  reachable := false
  jobs := (pending fs st.src st.pattern st.exporter.mover).1.map fun t =>
    .ofTask st.exporter t began
  files := fs
  plan := plan
  cancel := some st.stop
  logs := []

theorem run_of_not_timedOut {st : Setting} (h : (run st plan fs).summary.timedOut = false) :
    ∃ began done, done = st.exporter.runAll st.active
        (pending fs st.src st.pattern st.exporter.mover).1 began plan (some st.stop) fs ∧
      (run st plan fs).summary = summarize st.stop began done.jobs ∧
      (run st plan fs).files = done.files := by
  unfold run at h ⊢
  cases hs : st.scanned with
  | none => simp [hs] at h
  | some began =>
    by_cases hstop : st.stop ≤ began
    · simp [hs, hstop] at h
    · exact ⟨began, _, rfl, by simp [hstop], by simp [hstop]⟩

section Summary

variable {stop began : Duration} {jobs : List Job} {j : Job}

theorem failed_eq_zero (h : ∀ j ∈ jobs, ∃ r, j.phase = .ended (.ok r)) :
    (summarize stop began jobs).failed = 0 := by
  simp only [summarize, List.length_eq_zero_iff, List.filter_eq_nil_iff]
  intro j hj
  obtain ⟨r, hr⟩ := h j hj
  simp [endedBefore, Job.result?, hr, Move.Phase.result?, Except.isOk, Except.toBool]

theorem result_ne_error (hfailed : (summarize stop began jobs).failed = 0)
    (htime : (summarize stop began jobs).timedOut = false) (hj : j ∈ jobs) (e : MoveError) :
    j.result? ≠ some (.error e) := by
  simp only [summarize, List.length_eq_zero_iff, List.filter_eq_nil_iff, Bool.not_eq_true,
    List.any_eq_false, decide_eq_true_eq, Nat.not_le] at hfailed htime
  intro hr
  have hbefore := hfailed j hj
  simp [endedBefore, hr, Except.isOk, Except.toBool, htime j hj] at hbefore

end Summary
end Flush
end CaptureExport
