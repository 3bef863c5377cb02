import Mathlib.Data.List.Nodup
import CaptureExport.Proofs.Export.Batch
import CaptureExport.Proofs.Export.Concurrent

/-! # Contests for targets

Sources of one name are copied to one target, and of the copies that run side by side the one that
creates it is the only one to complete. All others of that name fail as they try to create it.
-/

namespace CaptureExport

open FileSystem

def Job.name (j : Job) : Name := Mover.nameFor j.source

namespace Move

/-- How far a plain copy of a file has come when its attempts complete: it fails only when its
target is there already. -/
def Contends (target : Location) (id : FileId) (content : Bytes) (fs : FileSystem) : Phase → Prop
  | .starting => True
  | .opened input => input = .file id
  | .copying h _ => h.input = .file id ∧ fs.node? target = some (.file h.output)
  | .ended (.ok _) => fs.standing? target = some (.file content)
  | .ended (.error _) => fs.node? target ≠ none
  | _ => False

variable {target : Location} {id : FileId} {content : Bytes} {fs gs : FileSystem}
  {phase phase' : Phase} {dst : Path} {d loc : Location} {name : Name} {mover : Mover}
  {source : Path} {a : Attempt}

theorem Contends.node?_ne_none (h : Contends target id content fs phase) (hh : phase.Holds) :
    fs.node? target ≠ none := by
  cases phase with
  | copying hd made => simp [h.2]
  | ended r =>
    cases r with
    | ok report =>
      obtain ⟨k, hk, -⟩ := standing?_eq_file_iff.mp h
      simp [hk]
    | error e => cases hh
  | _ => first | exact hh.elim | exact h.elim

theorem Contends.frame (h : Contends target id content fs phase)
    (hnode : fs.node? target ≠ none → gs.node? target = fs.node? target)
    (hsame : phase.Holds → Same fs gs target) : Contends target id content gs phase := by
  cases phase with
  | starting => trivial
  | opened input => exact h
  | copying hd made => exact ⟨h.1, (hsame trivial).1.trans h.2⟩
  | ended r =>
    cases r with
    | ok report => exact (hsame trivial).standing_file h
    | error e => exact (hnode h).trans_ne h
  | _ => cases h

/-- What a step of one copy does at most: it creates its target when there is none, or writes to
its own. -/
structure Ventures (target : Location) (id : FileId) (content : Bytes) (fs gs : FileSystem)
    (phase phase' : Phase) : Prop where
  sound : gs.Sound
  narrows : Narrows gs fs
  others : ∀ loc, loc ≠ target → Same fs gs loc
  stands : fs.node? target ≠ none → gs.node? target = fs.node? target
  unheld : ¬ phase'.Holds → gs = fs
  holds : phase.Holds → phase'.Holds
  takes : phase'.Holds → phase.Holds ∨ fs.node? target = none
  contends : Contends target id content gs phase'

theorem Ventures.of_same_files (hs : fs.Sound) (hp : ¬ phase.Holds) (hp' : ¬ phase'.Holds)
    (h : Contends target id content fs phase') :
    Ventures target id content fs fs phase phase' where
  sound := hs
  narrows := Narrows.refl fs
  others := fun _ _ => Same.refl fs _
  stands := fun _ => rfl
  unheld := fun _ => rfl
  holds := fun hh => absurd hh hp
  takes := fun hh => absurd hh hp'
  contends := h

section Turn

variable (hs : fs.Sound) (hd : fs.stat dst = .ok (d, .directory)) (hadm : Admits dst name)
  (hn : fs.node? loc = some (.file id)) (hloc : loc ≠ name :: d)
include hs

theorem Ventures.of_creates (hdir : fs.node? d = some .directory) (hname : IsName name)
    (hfree : fs.node? (name :: d) = none) :
    Ventures (name :: d) id content fs (fs.insertFile (name :: d) []).1 (.opened (.file id))
      (.copying (.opened (.file id) fs.contents.length) 0) where
  sound := hs.insertFile hfree hdir hname
  narrows := insertFile_narrows hfree
  others := fun l hl => same_insertFile hs hfree hl
  stands := fun h => absurd hfree h
  unheld := fun h => absurd trivial h
  holds := fun _ => trivial
  takes := fun _ => Or.inr hfree
  contends := ⟨rfl, by rw [node?_insertFile hfree, if_pos rfl]; rfl⟩

include hn hloc

theorem Ventures.of_copies {h : Handles} {made : ℕ} {report : MoveReport} {data : Bytes}
    (hc : Contends (name :: d) id (fs.content id) fs (.copying h made))
    (hr : h.Readable fs data) :
    Ventures (name :: d) id (fs.content id) fs (fs.setContent h.output data) (.copying h made)
      (.ended (.ok report)) := by
  obtain ⟨hin, hout⟩ := hc
  have hne : id ≠ h.output := by
    rintro rfl
    exact hloc (hs.eq_of_file hn hout)
  obtain rfl : data = fs.content id :=
    Except.ok.inj (hr.symm.trans (Handles.readable_of_ne hin hne))
  exact {
    sound := hs.setContent
    narrows := setContent_narrows
    others := fun l hl => same_setContent hs hout hl
    stands := fun _ => node?_setContent _
    unheld := fun h => absurd trivial h
    holds := fun _ => trivial
    takes := fun _ => Or.inl trivial
    contends := by
      refine standing?_eq_file_iff.mpr ⟨h.output, by rw [node?_setContent, hout], ?_⟩
      rw [content_setContent, if_pos ⟨rfl, hs.id_lt hout⟩] }

include hd hadm

theorem Contends.ventures (ho : fs.openRead source = .ok (.file id))
    (htarget : Move.target mover source {} = dst.join name) (ha : a.result = .complete)
    (h : Contends (name :: d) id (fs.content id) fs phase)
    (ht : Turn mover source {} a phase fs phase' gs) :
    Ventures (name :: d) id (fs.content id) fs gs phase phase' := by
  have hreadable {h : Handles} {made : ℕ}
      (hc : Contends (name :: d) id (fs.content id) fs (.copying h made)) :
      h.Readable fs (fs.content id) := by
    refine Handles.readable_of_ne hc.1 ?_
    rintro rfl
    exact hloc (hs.eq_of_file hn hc.2)
  cases ht with
  | opens ho' =>
    obtain rfl := Except.ok.inj (ho.symm.trans ho')
    exact .of_same_files hs (fun hh => hh) (fun hh => hh) rfl
  | openFails ho' => cases ho.symm.trans ho'
  | creates hc =>
    obtain rfl : _ = Opened.file id := h
    rw [htarget] at hc
    obtain ⟨-, hfree, rfl, rfl⟩ := createNew_join_eq_ok hd hadm.toIsWord hc
    exact .of_creates hs (node?_of_stat hs hd) hadm.toIsName hfree
  | createFails hc =>
    refine .of_same_files hs (fun hh => hh) (fun hh => hh) fun hfree => ?_
    rw [htarget, createNew_join hd hadm hfree] at hc
    cases hc
  | copies hr => exact .of_copies hs hn hloc h hr
  | fails hr _ _ _ => exact absurd (hreadable h) (hr ha _)
  | givesUp hr => exact absurd (hreadable h) (hr ha _)
  | retries => cases h
  | cancels => cases h
  | removes _ => cases h
  | removeFails _ => cases h
  | deletes _ => cases h
  | deleteFails _ => cases h
  | rests =>
    exact {
      sound := hs
      narrows := Narrows.refl fs
      others := fun _ _ => Same.refl fs _
      stands := fun _ => rfl
      unheld := fun _ => rfl
      holds := fun hh => hh
      takes := Or.inl
      contends := h }

end Turn
end Move

/-- Plain copies of files from a file system to a directory where nothing has stood. Files from
before are as they were, and what is new is the target of the one job that holds it. -/
structure Contest (mover : Mover) (d : Location) (fs : FileSystem) (began : Instant)
    (sources : List Path) (s : Schedule) : Prop where
  mover_eq : s.mover = mover
  inactive : s.active = false
  complete : ∀ a ∈ s.plan, a.unlinks = none ∧ a.result = .complete
  sound : s.files.Sound
  narrows : Narrows s.files fs
  kept : ∀ loc, fs.node? loc ≠ none → Same fs s.files loc
  options_eq : ∀ j ∈ s.jobs, j.options = {}
  time_eq : ∀ j ∈ s.jobs, j.time = began
  sources_eq : s.jobs.map Job.source = sources
  copies : ∀ j ∈ s.jobs, ∃ id, fs.openRead j.source = .ok (.file id) ∧
    Move.Contends (j.name :: d) id (fs.content id) s.files j.phase
  owned : ∀ loc, fs.node? loc = none → s.files.node? loc ≠ none →
    ∃ j ∈ s.jobs, loc = j.name :: d ∧ j.phase.Holds
  exclusive : ∀ (i k : ℕ) (j j' : Job), s.jobs[i]? = some j → s.jobs[k]? = some j' → j.phase.Holds →
    j'.phase.Holds → j.name = j'.name → i = k

namespace Contest

variable {mover : Mover} {dst : Path} {d : Location} {fs : FileSystem} {began now : Instant}
  {sources : List Path} {s : Schedule} {i : ℕ} {j : Job}

theorem start (hs : fs.Sound) (hmover : s.mover = mover) (hactive : s.active = false)
    (hplan : ∀ a ∈ s.plan, a.unlinks = none ∧ a.result = .complete) (hfiles : s.files = fs)
    (hsources : s.jobs.map Job.source = sources)
    (hjobs : ∀ j ∈ s.jobs, j.options = {} ∧ j.time = began ∧ j.phase = .starting ∧
      ∃ id, fs.openRead j.source = .ok (.file id)) :
    Contest mover d fs began sources s := by
  subst hfiles
  refine ⟨hmover, hactive, hplan, hs, Narrows.refl _, fun _ _ => Same.refl _ _,
    fun j hj => (hjobs j hj).1, fun j hj => (hjobs j hj).2.1, hsources, fun j hj => ?_,
    fun _ hnone hsome => absurd hnone hsome, fun i k j j' hi _ hh => ?_⟩
  · obtain ⟨-, -, hp, id, ho⟩ := hjobs j hj
    exact ⟨id, ho, by rw [hp]; trivial⟩
  · rw [(hjobs j (List.mem_of_getElem? hi)).2.2.1] at hh
    cases hh

theorem openRead_eq (h : Contest mover d fs began sources s) {p : Path} {id : FileId}
    (ho : fs.openRead p = .ok (.file id)) : s.files.openRead p = .ok (.file id) ∧
      ∃ loc, fs.node? loc = some (.file id) ∧ s.files.node? loc = some (.file id) := by
  obtain ⟨parent, name, hr, hn⟩ := openRead_eq_file ho
  have hnode : s.files.node? (name :: parent) = some (.file id) :=
    (h.kept _ (by simp [hn])).1.trans hn
  have hr' := h.narrows.resolve_eq hr (Or.inr (by simp [Spot.on, Spot.NoLink, hnode]))
  rw [Spot.on, hnode] at hr'
  exact ⟨openRead_of_resolve hr', _, hn, hnode⟩

theorem set (h : Contest mover d fs began sources s)
    (hfree : ∀ name, fs.node? (name :: d) = none) (hj : s.jobs[i]? = some j) {id : FileId}
    {phase : Move.Phase} {t : Schedule} (ho : fs.openRead j.source = .ok (.file id))
    (hv : Move.Ventures (j.name :: d) id (fs.content id) s.files t.files j.phase phase)
    (hmover : t.mover = s.mover) (hactive : t.active = s.active) (hplan : ∀ a ∈ t.plan, a ∈ s.plan)
    (hjobs : t.jobs = s.jobs.set i { j with phase := phase, time := began, steps := j.steps + 1 }) :
    Contest mover d fs began sources t := by
  have hm := List.mem_of_getElem? hj
  -- while another job of the name holds the target, this one cannot come to hold it
  have hothers {k : ℕ} {x : Job} (hki : k ≠ i) (hk : s.jobs[k]? = some x) (hx : x.phase.Holds)
      (he : x.name = j.name) : ¬ phase.Holds := by
    intro hp
    rcases hv.takes hp with hp | hnone
    · exact hki (h.exclusive k i x j hk hj hx hp he)
    · obtain ⟨_, -, hc⟩ := h.copies x (List.mem_of_getElem? hk)
      exact hc.node?_ne_none hx (he ▸ hnone)
  constructor
  case mover_eq => exact hmover.trans h.mover_eq
  case inactive => exact hactive.trans h.inactive
  case complete => exact fun a ha => h.complete a (hplan a ha)
  case sound => exact hv.sound
  case narrows => exact hv.narrows.trans h.narrows
  case kept =>
    intro loc hn
    refine (h.kept loc hn).trans (hv.others loc ?_)
    rintro rfl
    exact hn (hfree _)
  case options_eq =>
    intro x hx
    rw [hjobs] at hx
    rcases List.mem_or_eq_of_mem_set hx with hx | rfl
    · exact h.options_eq x hx
    · exact h.options_eq j hm
  case time_eq =>
    intro x hx
    rw [hjobs] at hx
    rcases List.mem_or_eq_of_mem_set hx with hx | rfl
    · exact h.time_eq x hx
    · rfl
  case sources_eq =>
    rw [hjobs]
    refine Eq.trans (map_set_eq hj ?_) h.sources_eq
    rfl
  case copies =>
    intro x hx
    obtain ⟨k, hk⟩ := List.mem_iff_getElem?.mp hx
    rw [hjobs] at hk
    rcases getElem?_set_cases hk with ⟨rfl, rfl⟩ | ⟨hki, hk⟩
    · exact ⟨id, ho, hv.contends⟩
    · obtain ⟨id', ho', hc⟩ := h.copies x (List.mem_of_getElem? hk)
      refine ⟨id', ho', ?_⟩
      -- a rival that holds the target sees no change, any other one only that the target is there
      by_cases he : x.name = j.name
      · rw [he] at hc ⊢
        refine hc.frame hv.stands fun hh => ?_
        rw [hv.unheld (hothers hki hk hh he)]
        exact Same.refl _ _
      · have hsame := hv.others (x.name :: d) fun hl => he (List.cons.inj hl).1
        exact hc.frame (fun _ => hsame.1) fun _ => hsame
  case owned =>
    intro loc hnone hn
    have hkeep (hold : s.files.node? loc ≠ none) :
        ∃ x ∈ t.jobs, loc = x.name :: d ∧ x.phase.Holds := by
      obtain ⟨x, hx, hname, hh⟩ := h.owned loc hnone hold
      obtain ⟨k, hk⟩ := List.mem_iff_getElem?.mp hx
      rw [hjobs]
      by_cases hki : k = i
      · subst hki
        obtain rfl : j = x := Option.some.inj (hj.symm.trans hk)
        exact ⟨_, mem_set_self hj, hname, hv.holds hh⟩
      · refine ⟨x, List.mem_iff_getElem?.mpr ⟨k, ?_⟩, hname, hh⟩
        rw [List.getElem?_set_ne (Ne.symm hki), hk]
    by_cases hp : phase.Holds
    · by_cases he : loc = j.name :: d
      · rw [hjobs]
        exact ⟨_, mem_set_self hj, he, hp⟩
      · exact hkeep ((hv.others loc he).1 ▸ hn)
    · exact hkeep (hv.unheld hp ▸ hn)
  case exclusive =>
    intro k l x y hk hl hx hy he
    rw [hjobs] at hk hl
    rcases getElem?_set_cases hk with ⟨rfl, rfl⟩ | ⟨hki, hk'⟩ <;>
      rcases getElem?_set_cases hl with ⟨rfl, rfl⟩ | ⟨hli, hl'⟩
    · rfl
    · exact absurd hx (hothers hli hl' hy he.symm)
    · exact absurd hy (hothers hki hk' hx he)
    · exact h.exclusive k l x y hk' hl' hx hy he

/-- Every step keeps to the contest, and takes no time. -/
theorem step (h : Contest mover d fs began sources s) (hdst : mover.destination = dst)
    (hd : fs.stat dst = .ok (d, .directory)) (hfree : ∀ name, fs.node? (name :: d) = none)
    (hadm : ∀ p ∈ sources, Admits dst (Mover.nameFor p)) (hj : s.jobs[i]? = some j)
    (hdue : now = j.dueAt s.mover.retry.delay s.cancel) :
    Contest mover d fs began sources (s.stepJob i now j) := by
  have hm := List.mem_of_getElem? hj
  have hr : s.refuses j = none := s.refuses_of_inactive h.inactive j
  obtain ⟨a, ha, hplan, hmover, hactive, hfiles, hjobs⟩ := s.stepJob_of_not_refused hr i now
  have hu : a.unlinks = none ∧ a.result = .complete := by
    rcases ha with rfl | ha
    · exact ⟨rfl, rfl⟩
    · exact h.complete a ha
  obtain ⟨id, ho, hc⟩ := h.copies j hm
  have hnow : now = began := by
    rw [hdue, ← h.time_eq j hm]
    unfold Job.dueAt
    cases hp : j.phase with
    | waiting hd made =>
      rw [hp] at hc
      cases hc
    | _ => rfl
  generalize hstep : Move.step s.mover j.source j.options a (s.cancelledAt now) j.phase s.files = o
    at hfiles hjobs
  have hturn : Move.Turn s.mover j.source {} a j.phase s.files o.phase o.files := by
    rw [← hstep, h.options_eq j hm]
    exact Move.step_turn hu.1
  subst hnow
  obtain ⟨ho', loc, hn, hn'⟩ := h.openRead_eq ho
  have hloc : loc ≠ j.name :: d := by
    rintro rfl
    rw [hfree] at hn
    cases hn
  have hmem : j.source ∈ sources := h.sources_eq ▸ List.mem_map_of_mem hm
  have hcontent : s.files.content id = fs.content id := (h.kept loc (by simp [hn])).2 id hn
  rw [← hcontent] at hc
  have htarget : Move.target s.mover j.source {} = dst.join j.name := by
    rw [Move.target, h.mover_eq, Mover.targetFor, hdst]
    rfl
  have hv := hc.ventures h.sound (h.narrows.stat_directory hd) (hadm _ hmem) hn' hloc ho' htarget
    hu.2 hturn
  rw [hcontent, ← hfiles] at hv
  exact h.set hfree hj ho hv hmover hactive hplan hjobs

theorem runAll {x : Exporter} {tasks : List ExportTask} {plan : Plan} {cancel : Option Instant}
    (hs : fs.Sound) (hdst : x.mover.destination = dst) (hd : fs.stat dst = .ok (d, .directory))
    (hfree : ∀ name, fs.node? (name :: d) = none)
    (hplan : ∀ a ∈ plan, a.unlinks = none ∧ a.result = .complete)
    (hterminal : ∀ t ∈ tasks, t.isTerminal = true)
    (hadm : ∀ t ∈ tasks, Admits dst (Mover.nameFor t.source))
    (hopen : ∀ t ∈ tasks, ∃ id, fs.openRead t.source = .ok (.file id)) :
    Contest x.mover d fs began (tasks.map ExportTask.source)
        (x.runAll false tasks began plan cancel fs) ∧
      ∀ j ∈ (x.runAll false tasks began plan cancel fs).jobs, j.result?.isSome := by
  have hsources : (tasks.map fun t => Job.ofTask x t began).map Job.source =
      tasks.map ExportTask.source := by
    rw [List.map_map]
    rfl
  have hstart : Contest x.mover d fs began (tasks.map ExportTask.source) {
      mover := x.mover, active := false, reachable := false
      jobs := tasks.map fun t => .ofTask x t began, files := fs, plan := plan, cancel := cancel
      logs := [] } := by
    refine start hs rfl rfl hplan rfl hsources fun j hj => ?_
    obtain ⟨t, ht, rfl⟩ := List.mem_map.mp hj
    exact ⟨if_pos (hterminal t ht), rfl, rfl, hopen t ht⟩
  refine Schedule.run_induction (fun s i now j h hj _ hdue => ?_) hstart
  refine h.step hdst hd hfree (fun p hp => ?_) hj hdue
  obtain ⟨t, ht, rfl⟩ := List.mem_map.mp hp
  exact hadm t ht

section Ended

variable (h : Contest mover d fs began sources s) (hended : ∀ j ∈ s.jobs, j.result?.isSome)
include h hended

theorem ended_cases (hj : j ∈ s.jobs) : (∃ r, j.phase = .ended (.ok r)) ∨
    (∃ e, j.phase = .ended (.error e)) ∧ s.files.node? (j.name :: d) ≠ none := by
  obtain ⟨r, hp⟩ := Job.phase_eq_ended (hended j hj)
  obtain ⟨id, -, hc⟩ := h.copies j hj
  cases r with
  | ok report => exact Or.inl ⟨report, hp⟩
  | error e =>
    rw [hp] at hc
    exact Or.inr ⟨⟨e, hp⟩, hc⟩

theorem standing_of_holds (hj : j ∈ s.jobs) (hh : j.phase.Holds) :
    ∃ content, fs.readFile j.source = .ok content ∧
      s.files.standing? (j.name :: d) = some (.file content) := by
  obtain ⟨id, ho, hc⟩ := h.copies j hj
  rcases h.ended_cases hended hj with ⟨r, hp⟩ | ⟨⟨e, hp⟩, -⟩
  · rw [hp] at hc
    exact ⟨_, readFile_of_openRead ho, hc⟩
  · rw [hp] at hh
    cases hh

variable (hfree : ∀ name, fs.node? (name :: d) = none)
include hfree

/-- Every name has a winner, whose source is copied. -/
theorem winner (hj : j ∈ s.jobs) : ∃ k ∈ s.jobs, k.name = j.name ∧
    ∃ content, fs.readFile k.source = .ok content ∧
      s.files.standing? (j.name :: d) = some (.file content) := by
  rcases h.ended_cases hended hj with ⟨r, hp⟩ | ⟨-, hn⟩
  · exact ⟨j, hj, rfl, h.standing_of_holds hended hj (by rw [hp]; trivial)⟩
  · obtain ⟨k, hk, hl, hh⟩ := h.owned _ (hfree j.name) hn
    have hname : j.name = k.name := (List.cons.inj hl).1
    exact ⟨k, hk, hname.symm, hname ▸ h.standing_of_holds hended hk hh⟩

/-- All copies succeed when no two sources have one name, and only then. -/
theorem all_succeed_iff : (∀ j ∈ s.jobs, ∃ r, j.phase = .ended (.ok r)) ↔
    (s.jobs.map Job.name).Nodup := by
  constructor
  · intro hall
    rw [List.nodup_iff_injective_getElem]
    rintro ⟨i, hi⟩ ⟨k, hk⟩ he
    simp only [List.length_map] at hi hk
    simp only [List.getElem_map] at he
    obtain ⟨r, hr⟩ := hall _ (List.getElem_mem hi)
    obtain ⟨r', hr'⟩ := hall _ (List.getElem_mem hk)
    exact Fin.ext (h.exclusive i k _ _ (List.getElem?_eq_getElem hi) (List.getElem?_eq_getElem hk)
      (by rw [hr]; trivial) (by rw [hr']; trivial) he)
  · intro hnodup j hj
    refine (h.ended_cases hended hj).resolve_right ?_
    rintro ⟨⟨e, he⟩, hn⟩
    obtain ⟨k, hk, hl, hh⟩ := h.owned _ (hfree j.name) hn
    obtain rfl : j = k := List.inj_on_of_nodup_map hnodup hj hk (List.cons.inj hl).1
    rw [he] at hh
    cases hh

end Ended
end Contest
end CaptureExport
