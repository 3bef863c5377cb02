import CaptureExport.Proofs.Export.Concurrent
import CaptureExport.Proofs.Export.Schedule
import CaptureExport.Proofs.FileSystem.Growth

/-! # Jobs among themselves

The jobs of a schedule make their steps in any order and at any time, while nobody else touches the
files. Seen as concurrent moves, jobs that delete nothing only add files, and every file that is
new stands at the target of one of them.
-/

namespace CaptureExport

open FileSystem

namespace Move

def Phase.Keeps : Phase → Prop
  | .deleting _ _ _ => False
  | _ => True

variable {mover : Mover} {source : Path} {options : MoveOptions} {a : Attempt}
  {phase phase' : Phase} {fs gs : FileSystem}

theorem Turn.keeps (h : Turn mover source options a phase fs phase' gs)
    (hd : options.deleteOnSuccess = false) (hp : phase.Keeps) :
    phase'.Keeps ∧ ∀ r, phase' = .ended (.ok r) → ∀ loc, gs.node? loc = fs.node? loc := by
  cases h with
  | copies _ =>
    rw [hd]
    exact ⟨trivial, fun _ _ loc => node?_setContent loc⟩
  | deletes _ => cases hp
  | deleteFails _ => cases hp
  | rests => exact ⟨trivial, fun _ _ _ => rfl⟩
  | _ => exact ⟨trivial, fun r hr => by cases hr⟩

end Move

namespace Schedule

/-- The schedules that come about when jobs make steps in any order and at any time, while nobody
else touches the files. -/
inductive Interleaves (s : Schedule) : Schedule → Prop
  | refl : Interleaves s s
  | move {t : Schedule} {i : ℕ} {j : Job} (now : Instant) (h : Interleaves s t)
      (hj : t.jobs[i]? = some j) (hr : j.result? = none) : Interleaves s (t.stepJob i now j)

variable {s t : Schedule} {i : ℕ} {now : Instant} {j : Job} {loc : Location} {node : Node}

theorem interleaves_run (s : Schedule) :
    s.Interleaves s.run ∧ ∀ j ∈ s.run.jobs, j.result?.isSome :=
  run_induction (fun _ _ now _ h hj hr _ => .move now h hj hr) Interleaves.refl

structure Moves (s t : Schedule) (i : ℕ) (j j' : Job) : Prop where
  jobs_eq : t.jobs = s.jobs.set i j'
  task_eq : j'.task = j.task
  source_eq : j'.source = j.source
  options_eq : j'.options = j.options
  mover_eq : t.mover = s.mover
  undisturbed : ∀ a ∈ t.plan, a.unlinks = none
  act : (j.phase = .starting ∧ (∃ e, j'.phase = .ended (.error e)) ∧ t.files = s.files) ∨
    ∃ a, Move.Turn s.mover j.source j.options a j.phase s.files j'.phase t.files

theorem exists_moves (hplan : ∀ a ∈ s.plan, a.unlinks = none) :
    ∃ j', Moves s (s.stepJob i now j) i j j' := by
  cases hr : s.refuses j with
  | some t =>
    have hp : j.phase = .starting := by
      unfold refuses at hr
      split at hr
      · assumption
      · cases hr
    unfold stepJob
    rw [hr]
    exact ⟨_, rfl, rfl, rfl, rfl, rfl, hplan, Or.inl ⟨hp, ⟨_, rfl⟩, rfl⟩⟩
  | none =>
    obtain ⟨a, ha, hsub, hmover, -, hfiles, hjobs⟩ := s.stepJob_of_not_refused hr i now
    have hu : a.unlinks = none := by
      rcases ha with rfl | ha
      · rfl
      · exact hplan a ha
    refine ⟨_, hjobs, rfl, rfl, rfl, hmover, fun b hb => hplan b (hsub b hb), Or.inr ⟨a, ?_⟩⟩
    rw [hfiles]
    exact Move.step_turn hu

theorem Moves.keeps {j' : Job} (h : Moves s t i j j') (hd : j.options.deleteOnSuccess = false)
    (hp : j.phase.Keeps) : j'.phase.Keeps ∧
      ∀ r, j'.phase = .ended (.ok r) → ∀ loc, t.files.node? loc = s.files.node? loc := by
  rcases h.act with ⟨-, ⟨e, hp'⟩, hfiles⟩ | ⟨a, hturn⟩
  · rw [hp', hfiles]
    exact ⟨trivial, fun _ _ _ => rfl⟩
  · exact hturn.keeps hd hp

/-! ## Jobs as concurrent moves -/

def calls (s : Schedule) (i : Fin s.jobs.length) : Call :=
  ⟨s.mover, s.jobs[i].source, s.jobs[i].options⟩

def state (s : Schedule) (n : ℕ) : Concurrent.State (Fin n) :=
  ⟨s.files, fun i => ((s.jobs[i.val]?).map Job.phase).getD .starting⟩

/-- What holds while the jobs of a schedule that delete nothing make their steps. -/
structure Keeping (s t : Schedule) : Prop where
  mover_eq : t.mover = s.mover
  undisturbed : ∀ a ∈ t.plan, a.unlinks = none
  moves_eq : t.jobs.map (fun j => (j.task, j.source, j.options)) =
    s.jobs.map fun j => (j.task, j.source, j.options)
  keeps : ∀ j ∈ t.jobs, j.phase.Keeps
  safe : Concurrent.Safe s.calls s.files (t.state s.jobs.length)
  kept : ∀ loc node, s.files.node? loc = some node → t.files.node? loc = some node

namespace Keeping

theorem getElem? (h : Keeping s t) (hj : t.jobs[i]? = some j) :
    ∃ hi : i < s.jobs.length, (t.state s.jobs.length).phase ⟨i, hi⟩ = j.phase ∧
      s.calls ⟨i, hi⟩ = ⟨s.mover, j.source, j.options⟩ := by
  have hm := congrArg (·[i]?) h.moves_eq
  simp only [List.getElem?_map, hj, Option.map_some] at hm
  obtain ⟨k, hk, he⟩ := Option.map_eq_some_iff.mp hm.symm
  obtain ⟨hi, rfl⟩ := List.getElem?_eq_some_iff.mp hk
  obtain ⟨-, hmove⟩ := Prod.mk.inj he
  obtain ⟨hsource, hoptions⟩ := Prod.mk.inj hmove
  refine ⟨hi, by simp [state, hj], ?_⟩
  simp [calls, hsource, hoptions]

theorem refl (hs : s.files.Sound) (hplan : ∀ a ∈ s.plan, a.unlinks = none)
    (hstart : ∀ j ∈ s.jobs, j.phase = .starting) : Keeping s s := by
  have hstate : s.state s.jobs.length = Concurrent.start _ s.files := by
    refine congrArg (Concurrent.State.mk s.files) (funext fun i => ?_)
    simp [hstart s.jobs[i.val] (List.getElem_mem _)]
  refine ⟨rfl, hplan, rfl, fun j hj => ?_, ?_, fun _ _ h => h⟩
  · rw [hstart j hj]
    trivial
  · rw [hstate]
    exact .start hs

section Step

variable {u : Schedule} {j' : Job} (h : Keeping s t) (hs : s.files.Sound)
  (ha : Concurrent.Apart s.files s.calls)
  (hd : ∀ j ∈ s.jobs, j.options.deleteOnSuccess = false)
include h hs ha

/-- The step of a job is a change that its move is responsible for. -/
theorem change (hj : t.jobs[i]? = some j) (hm : Moves t u i j j') :
    ∃ hi : i < s.jobs.length, Concurrent.Change s.calls s.files ⟨i, hi⟩
      (t.state s.jobs.length) (u.state s.jobs.length) ∧
        (u.state s.jobs.length).phase ⟨i, hi⟩ = j'.phase := by
  obtain ⟨hi, hphase, hcall⟩ := h.getElem? hj
  have hnext : (u.state s.jobs.length).phase ⟨i, hi⟩ = j'.phase := by
    have hlt : i < t.jobs.length := (List.getElem?_eq_some_iff.mp hj).1
    simp [state, hm.jobs_eq, hlt]
  have hothers (k : Fin s.jobs.length) (hk : k ≠ ⟨i, hi⟩) :
      (u.state s.jobs.length).phase k = (t.state s.jobs.length).phase k := by
    have hne : i ≠ k.val := fun he => hk (Fin.ext he.symm)
    simp [state, hm.jobs_eq, List.getElem?_set_ne hne]
  refine ⟨hi, ?_, hnext⟩
  -- a refusal changes nothing but the phase, and a turn is a step of the concurrent move
  rcases hm.act with ⟨hp, ⟨e, hp'⟩, hfiles⟩ | ⟨a, hturn⟩
  · rw [hp] at hphase
    rw [hp'] at hnext
    refine h.safe.change_of_same_files hothers hfiles ?_ ?_ ?_ ?_ ?_ <;> rw [hnext]
    · simp
    · simp [hphase]
    · rw [hphase]
      exact fun hh => hh
    · trivial
    · exact fun hh => hh.elim
  · refine @Concurrent.Safe.change_of_turn _ _ _ _ _ _ a h.safe hothers ha hs ?_
    rw [hcall, hphase, hnext, ← h.mover_eq]
    exact hturn

include hd

theorem stepJob (hj : t.jobs[i]? = some j) : Keeping s (t.stepJob i now j) := by
  obtain ⟨j', hm⟩ := @exists_moves t i now j h.undisturbed
  obtain ⟨hi, hchange, hnext⟩ := h.change hs ha hj hm
  obtain ⟨_, -, hcall⟩ := h.getElem? hj
  have hdelete : j.options.deleteOnSuccess = false := by
    have hj₀ := hd _ (List.getElem_mem hi)
    rwa [show s.jobs[i].options = j.options from congrArg Call.options hcall] at hj₀
  obtain ⟨hkeeps, hnames⟩ := hm.keeps hdelete (h.keeps j (List.mem_of_getElem? hj))
  constructor
  case mover_eq => exact hm.mover_eq.trans h.mover_eq
  case undisturbed => exact hm.undisturbed
  case moves_eq =>
    rw [hm.jobs_eq, ← h.moves_eq]
    exact map_set_eq hj (by rw [hm.task_eq, hm.source_eq, hm.options_eq])
  case keeps =>
    intro k hk
    rw [hm.jobs_eq] at hk
    rcases List.mem_or_eq_of_mem_set hk with hk | rfl
    · exact h.keeps k hk
    · exact hkeeps
  case safe => exact h.safe.of_change hchange
  case kept =>
    intro loc node hn
    have hn' := h.kept loc node hn
    -- a name goes with a move that has just succeeded, and such a step removes none here
    rcases hchange.kept loc node hn hn' with hg | ⟨-, -, report, -, hended, -⟩
    · exact hg
    · exact (hnames report (hnext.symm.trans hended) loc).trans hn'

end Step

variable (h : Keeping s t)
include h

theorem sound : t.files.Sound := h.safe.sound

theorem task_eq : t.jobs.map Job.task = s.jobs.map Job.task := by
  have hm := congrArg (List.map Prod.fst) h.moves_eq
  rwa [List.map_map, List.map_map] at hm

theorem exists_mem (hj : j ∈ s.jobs) : ∃ k ∈ t.jobs, k.task = j.task ∧ k.source = j.source ∧
    k.options = j.options := by
  have hm := List.mem_map_of_mem hj (f := fun j => (j.task, j.source, j.options))
  rw [← h.moves_eq] at hm
  obtain ⟨k, hk, he⟩ := List.mem_map.mp hm
  obtain ⟨htask, hmove⟩ := Prod.mk.inj he
  exact ⟨k, hk, htask, Prod.mk.inj hmove⟩

/-- All that the jobs do to the names is to add files. -/
theorem adds : Adds s.files t.files := by
  refine ⟨h.kept, fun loc node hn => ?_, h.safe.working⟩
  rcases h.safe.fresh loc node hn with hn | ⟨hfree, -, id, rfl, -⟩
  · exact Or.inl hn
  · exact Or.inr ⟨hfree, id, rfl⟩

theorem target_of_fresh (hn : t.files.node? loc = some node) (hfree : s.files.node? loc = none) :
    ∃ j ∈ s.jobs, s.files.place? false (Move.target s.mover j.source j.options) = some loc := by
  rcases h.safe.fresh loc node hn with hn | ⟨-, i, -, -, -, htarget, -⟩
  · rw [hfree] at hn
    cases hn
  · exact ⟨s.jobs[i], List.getElem_mem _, htarget⟩

theorem target_of_ok (hj : j ∈ t.jobs) {report : MoveReport} (hp : j.phase = .ended (.ok report)) :
    ∃ loc id, s.files.place? false (Move.target s.mover j.source j.options) = some loc ∧
      t.files.node? loc = some (.file id) := by
  obtain ⟨i, hi⟩ := List.mem_iff_getElem?.mp hj
  obtain ⟨hlt, hphase, hcall⟩ := h.getElem? hi
  have hfits := h.safe.fits ⟨i, hlt⟩
  rw [hphase, hp, hcall] at hfits
  obtain ⟨loc, id, -, ⟨hplace, -, hn, -⟩, -⟩ := hfits
  exact ⟨loc, id, hplace, hn⟩

end Keeping

theorem Interleaves.keeping (h : s.Interleaves t) (hs : s.files.Sound)
    (ha : Concurrent.Apart s.files s.calls)
    (hd : ∀ j ∈ s.jobs, j.options.deleteOnSuccess = false)
    (hplan : ∀ a ∈ s.plan, a.unlinks = none) (hstart : ∀ j ∈ s.jobs, j.phase = .starting) :
    Keeping s t := by
  induction h with
  | refl => exact .refl hs hplan hstart
  | move now _ hj _ ih => exact ih.stepJob hs ha hd hj

end Schedule
end CaptureExport
