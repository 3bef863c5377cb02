import CaptureExport.Proofs.Export.Interleaving
import CaptureExport.Proofs.Flush.Names

/-! # A second flush

The exports of a flush only add files to the destination, each under the name of its source. So
what a later scan finds was there before, or it has the name of a target that stands: wherever the
destination lies, a later flush has nothing to do but what has failed.
-/

namespace CaptureExport.Flush

open FileSystem

/-- A walk from a path comes by the file at a location: at the path itself or in a directory below
it. -/
inductive FoundAt (fs : FileSystem) (src : Path) : Path → Location → Prop
  | itself {loc : Location} {id : FileId} (hsep : endsInSeparator src = false)
      (hp : fs.place? false src = some loc) (hn : fs.node? loc = some (.file id)) :
      FoundAt fs src src loc
  | inside {loc : Location} {name : Name} {names : List Name} {id : FileId}
      (hd : fs.stat src = .ok (loc, .directory))
      (hn : fs.node? (name :: (names ++ loc)) = some (.file id))
      (hshort : (src.below names).bytes.length < pathLimit) :
      FoundAt fs src (src.below (name :: names)) (name :: (names ++ loc))

variable {fs gs : FileSystem} {src p q : Path} {loc l : Location} {pattern : SegmentPattern}
  {mover : Mover} {t : ExportTask} {st : Setting} {plan : Plan} {began : Duration} {j : Job}
  {done : Schedule}

theorem mem_walk_iff (hs : fs.Sound) :
    Found.file p ∈ walk fs src ↔ ∃ loc, FoundAt fs src p loc := by
  constructor
  · intro h
    have hinside {d : Location} (hd : fs.stat src = .ok (d, .directory)) :
        ∃ loc, FoundAt fs src p loc := by
      obtain ⟨name, names, id, rfl, hn, hshort⟩ := (mem_walk hs hd).mp h
      exact ⟨_, .inside hd hn hshort⟩
    have hwalk := h
    unfold walk at hwalk
    split at hwalk
    · simp at hwalk
    · rename_i d id hl
      obtain rfl : p = src := by simpa using hwalk
      obtain ⟨hsep, hp, hn⟩ := linkStat_eq_file_iff.mp hl
      exact ⟨d, .itself hsep hp hn⟩
    · rename_i d hl
      exact hinside (stat_of_linkStat hl)
    · split at hwalk
      · simp at hwalk
      · rename_i d hd
        exact hinside hd
      · simp at hwalk
  · rintro ⟨loc, h⟩
    cases h with
    | itself hsep hp hn =>
      unfold walk
      rw [linkStat_eq_file_iff.mpr ⟨hsep, hp, hn⟩]
      exact List.mem_singleton_self _
    | inside hd hn hshort => exact (mem_walk hs hd).mpr ⟨_, _, _, rfl, hn, hshort⟩

theorem mem_pending_iff (hs : fs.Sound) : t ∈ (pending fs src pattern mover).1 ↔
    ∃ p loc key, FoundAt fs src p loc ∧ pattern.key? p = some key ∧
      isExported fs mover p = false ∧ t = ⟨p, key, .terminal⟩ := by
  simp only [pending, List.flatMap_map, List.mem_flatMap, mem_judge]
  constructor
  · rintro ⟨f, hf, p, key, rfl, hk, hx, rfl⟩
    obtain ⟨loc, hf⟩ := (mem_walk_iff hs).mp hf
    exact ⟨p, loc, key, hf, hk, hx, rfl⟩
  · rintro ⟨p, loc, key, hf, hk, hx, rfl⟩
    exact ⟨_, (mem_walk_iff hs).mpr ⟨loc, hf⟩, p, key, rfl, hk, hx, rfl⟩

namespace FoundAt

theorem node? (h : FoundAt fs src p loc) : ∃ id, fs.node? loc = some (.file id) := by
  cases h with
  | itself _ _ hn => exact ⟨_, hn⟩
  | inside _ hn _ => exact ⟨_, hn⟩

theorem nameFor_eq (hs : fs.Sound) (h : FoundAt fs src p loc) :
    ∃ name parent, loc = name :: parent ∧ IsName name ∧ Mover.nameFor p = name := by
  cases h with
  | itself _ hp _ =>
    obtain ⟨name, parent, rfl, hname, hfile⟩ := fileName?_of_place hs hp
    exact ⟨name, parent, rfl, hname, by simp [Mover.nameFor, hfile]⟩
  | inside _ hn _ =>
    exact ⟨_, _, rfl, hs.isName hn, Mover.nameFor_join (hs.isName hn).toIsWord⟩

theorem isWord (hs : fs.Sound) (h : FoundAt fs src p loc) : IsWord (Mover.nameFor p) := by
  obtain ⟨name, -, -, hname, hp⟩ := h.nameFor_eq hs
  exact hp ▸ hname.toIsWord

/-- A path that a walk tells of leads nowhere but to the file. -/
theorem place_eq (hs : fs.Sound) (h : FoundAt fs src p loc) {follow : Bool}
    (hp : fs.place? follow p = some l) : l = loc := by
  cases h with
  | itself _ hplace hn =>
    cases follow with
    | false => exact Option.some.inj (hp.symm.trans hplace)
    | true =>
      obtain ⟨parent, name, s, rfl, hr⟩ := place?_eq_some hplace
      rw [hn] at hr
      have htrue := place?_of_resolve (resolve_true hr (by simp [Spot.NoLink]))
      exact Option.some.inj (hp.symm.trans htrue)
  | @inside d name names id hd hn hshort =>
    have hparent := hs.stat_below hd (hs.parent_directory hn) hshort
    obtain ⟨parent, n, s, rfl, hr⟩ := place?_eq_some hp
    by_cases hadm : Admits (src.below names) name
    · have hr' : fs.resolve follow ((src.below names).join name) = _ :=
        resolve_join hparent hadm (Or.inr (by simp [hn]))
      obtain ⟨⟨hdir, hname, -⟩, -⟩ := by simpa using hr'.symm.trans hr
      rw [hdir, hname]
    · rw [Path.below, resolve_join_too_long hparent (hs.isName hn).toIsWord hadm] at hr
      cases hr

theorem of_adds (ha : Adds fs gs) (h : FoundAt gs src p loc) (hold : fs.node? loc ≠ none) :
    FoundAt fs src p loc := by
  have hnode {node : Node} (hn : gs.node? loc = some node) : fs.node? loc = some node :=
    (ha.fresh loc node hn).resolve_right fun hf => hold hf.1
  cases h with
  | itself hsep hp hn => exact .itself hsep (ha.place_iff.mp hp) (hnode hn)
  | inside hd hn hshort => exact .inside (ha.stat_directory_iff.mp hd) (hnode hn) hshort

theorem adds (ha : Adds fs gs) (h : FoundAt fs src p loc) : FoundAt gs src p loc := by
  cases h with
  | itself hsep hp hn => exact .itself hsep (ha.place_iff.mpr hp) (ha.kept _ _ hn)
  | inside hd hn hshort => exact .inside (ha.stat_directory_iff.mpr hd) (ha.kept _ _ hn) hshort

end FoundAt

theorem isExported_adds (ha : Adds fs gs) (h : isExported fs mover p = true) :
    isExported gs mover p = true := by
  simp only [isExported, Bool.or_eq_true] at h ⊢
  exact h.imp ha.hasPath ha.hasPath

theorem isExported_of_place {id : FileId} (hw : IsWord (Mover.nameFor p))
    (hp : fs.place? false (mover.targetFor p false) = some loc)
    (hn : fs.node? loc = some (.file id)) : isExported fs mover p = true := by
  have hsep : endsInSeparator (mover.targetFor p false) = false := Path.endsInSeparator_join hw
  simp [isExported, hasPath_of_place hsep hp hn]

/-! ## The exports of a flush -/

theorem mem_exports_iff (hs : fs.Sound) : j ∈ (exports st plan fs began).jobs ↔
    ∃ p loc key, FoundAt fs st.src p loc ∧ st.pattern.key? p = some key ∧
      isExported fs st.exporter.mover p = false ∧
      j = .ofTask st.exporter ⟨p, key, .terminal⟩ began := by
  simp only [exports, List.mem_map, mem_pending_iff hs]
  constructor
  · rintro ⟨t, ⟨p, loc, key, hf, hk, hx, rfl⟩, rfl⟩
    exact ⟨p, loc, key, hf, hk, hx, rfl⟩
  · rintro ⟨p, loc, key, hf, hk, hx, rfl⟩
    exact ⟨_, ⟨p, loc, key, hf, hk, hx, rfl⟩, rfl⟩

/-- No target of a pending segment is a pending segment, as it would be missing a target. -/
theorem apart_exports (hs : fs.Sound) :
    Concurrent.Apart fs (exports st plan fs began).calls := by
  intro i j follow loc _ htarget hsource
  obtain ⟨p, l, key, hf, -, hx, hi⟩ := (mem_exports_iff hs).mp (List.getElem_mem i.isLt)
  obtain ⟨q, m, key', hf', -, -, hj⟩ := (mem_exports_iff hs).mp (List.getElem_mem j.isLt)
  simp only [Schedule.calls, Fin.getElem_fin, hi, hj] at htarget hsource
  obtain rfl := hf'.place_eq hs hsource
  obtain ⟨id, hn⟩ := hf'.node?
  have hstands : isExported fs st.exporter.mover p = true :=
    isExported_of_place (hf.isWord hs) htarget hn
  exact Bool.false_ne_true (hx.symm.trans hstands)

/-- One way for a flush to go: its scan ends in time, and its exports make their steps in some
order until all of them have ended. -/
structure Passes (st : Setting) (plan : Plan) (fs : FileSystem) (began : Duration)
    (done : Schedule) : Prop where
  scanned : st.scanned = some began
  in_time : began < st.stop
  steps : (exports st plan fs began).Interleaves done
  ended : ∀ j ∈ done.jobs, j.result?.isSome

theorem run_passes (hscanned : st.scanned = some began) (hlt : began < st.stop) :
    Passes st plan fs began (exports st plan fs began).run ∧
      (run st plan fs).files = (exports st plan fs began).run.files ∧
      (run st plan fs).summary = summarize st.stop began (exports st plan fs began).run.jobs := by
  obtain ⟨hsteps, hended⟩ := (exports st plan fs began).interleaves_run
  refine ⟨⟨hscanned, hlt, hsteps, hended⟩, ?_, ?_⟩
  · unfold run
    simp only [hscanned, if_neg (Nat.not_le.mpr hlt)]
    rfl
  · unfold run
    simp only [hscanned, if_neg (Nat.not_le.mpr hlt)]
    rfl

section Passes

variable (hs : fs.Sound) (hplan : ∀ a ∈ plan, a.unlinks = none)
  (h : Passes st plan fs began done)
include hs hplan h

theorem Passes.keeping : Schedule.Keeping (exports st plan fs began) done := by
  refine h.steps.keeping hs (apart_exports hs) (fun j hj => ?_) hplan fun j hj => ?_
  · obtain ⟨p, loc, key, -, -, -, rfl⟩ := (mem_exports_iff hs).mp hj
    rfl
  · obtain ⟨p, loc, key, -, -, -, rfl⟩ := (mem_exports_iff hs).mp hj
    rfl

theorem Passes.isExported_of_fresh (hf : FoundAt done.files src p loc)
    (hfree : fs.node? loc = none) : isExported done.files st.exporter.mover p = true := by
  have hk := h.keeping hs hplan
  obtain ⟨id, hn⟩ := hf.node?
  obtain ⟨j, hj, htarget⟩ := hk.target_of_fresh hn hfree
  obtain ⟨q, l, key, hq, -, -, rfl⟩ := (mem_exports_iff hs).mp hj
  obtain ⟨other, -, -, -, hqname⟩ := hq.nameFor_eq hs
  obtain ⟨name, parent, rfl, -, hpname⟩ := hf.nameFor_eq hk.sound
  obtain ⟨last, _, hl, -, hfile⟩ := fileName?_of_place hs htarget
  -- the file has the name of the target, and the target that of its source
  have hjoined : (st.exporter.mover.targetFor q false).fileName? = some other := by
    rw [← hqname]
    exact Path.fileName?_join (hq.isWord hs)
  have hsame : Mover.nameFor p = Mover.nameFor q := by
    rw [hpname, hqname, (List.cons.inj hl).1]
    exact Option.some.inj (hfile.symm.trans hjoined)
  refine isExported_of_place (hf.isWord hk.sound) (hk.adds.place_iff.mpr ?_) hn
  rw [Mover.targetFor, hsame]
  exact htarget

theorem Passes.failed_of_pending
    (ht : t ∈ (pending done.files st.src st.pattern st.exporter.mover).1) :
    ∃ j ∈ done.jobs, j.task = some t ∧ ∃ e, j.result? = some (.error e) := by
  have hk := h.keeping hs hplan
  obtain ⟨p, loc, key, hf, hkey, hx, rfl⟩ := (mem_pending_iff hk.sound).mp ht
  -- the file was there before the flush, whose scan came by it and found no target either
  have hold : fs.node? loc ≠ none := fun hfree =>
    Bool.false_ne_true (hx.symm.trans (h.isExported_of_fresh hs hplan hf hfree))
  have hfirst : isExported fs st.exporter.mover p = false :=
    Bool.eq_false_iff.mpr fun hstood =>
      Bool.false_ne_true (hx.symm.trans (isExported_adds hk.adds hstood))
  have hjob : .ofTask st.exporter ⟨p, key, .terminal⟩ began ∈ (exports st plan fs began).jobs :=
    (mem_exports_iff hs).mpr ⟨p, loc, key, hf.of_adds hk.adds hold, hkey, hfirst, rfl⟩
  obtain ⟨j, hj, htask, hsource, hoptions⟩ := hk.exists_mem hjob
  refine ⟨j, hj, htask, ?_⟩
  obtain ⟨r, hp⟩ := Job.phase_eq_ended (h.ended j hj)
  cases r with
  | error e => exact ⟨e, by simp [Job.result?, hp, Move.Phase.result?]⟩
  | ok report =>
    obtain ⟨l, id, htarget, hn⟩ := hk.target_of_ok hj hp
    rw [hsource, hoptions] at htarget
    have hstands : isExported done.files st.exporter.mover p = true :=
      isExported_of_place (hf.isWord hk.sound) (hk.adds.place_iff.mpr htarget) hn
    exact absurd (hx.symm.trans hstands) Bool.false_ne_true

/-- What is pending after a flush are its tasks that have failed, unless their targets stand. -/
theorem Passes.mem_pending_iff :
    t ∈ (pending done.files st.src st.pattern st.exporter.mover).1 ↔
      ∃ j ∈ done.jobs, j.task = some t ∧ (∃ e, j.result? = some (.error e)) ∧
        isExported done.files st.exporter.mover t.source = false := by
  have hk := h.keeping hs hplan
  constructor
  · intro ht
    obtain ⟨j, hj, htask, hfailed⟩ := h.failed_of_pending hs hplan ht
    obtain ⟨p, loc, key, -, -, hx, rfl⟩ := (Flush.mem_pending_iff hk.sound).mp ht
    exact ⟨j, hj, htask, hfailed, hx⟩
  · rintro ⟨j, hj, htask, -, hx⟩
    have hm := List.mem_map_of_mem hj (f := Job.task)
    rw [hk.task_eq, htask] at hm
    obtain ⟨j₀, hj₀, he⟩ := List.mem_map.mp hm
    obtain ⟨p, loc, key, hf, hkey, -, rfl⟩ := (mem_exports_iff hs).mp hj₀
    obtain rfl : ⟨p, key, .terminal⟩ = t := Option.some.inj he
    exact (Flush.mem_pending_iff hk.sound).mpr
      ⟨p, loc, key, hf.adds hk.adds, hkey, hx, rfl⟩

end Passes

theorem run_of_pending_eq_nil
    (h : (pending fs st.src st.pattern st.exporter.mover).1 = []) :
    (run st plan fs).files = fs ∧ (run st plan fs).summary.submitted = 0 ∧
      (run st plan fs).summary.flushed = 0 ∧ (run st plan fs).summary.failed = 0 := by
  unfold run
  cases st.scanned with
  | none => exact ⟨rfl, rfl, rfl, rfl⟩
  | some began =>
    simp only [h]
    split
    · exact ⟨rfl, rfl, rfl, rfl⟩
    · exact ⟨rfl, rfl, rfl, rfl⟩

/-- A second flush submits those tasks of the first one that have failed and whose targets do not
stand, and no others: after a flush without a failure, none. -/
theorem runs_again {st' : Setting} (hs : fs.Sound) (hplan : ∀ a ∈ plan, a.unlinks = none)
    (h : Passes st plan fs began done) (hsrc : st'.src = st.src)
    (hpattern : st'.pattern = st.pattern)
    (hdest : st'.exporter.mover.destination = st.exporter.mover.destination) :
    (∀ plan' began' t, some t ∈ (exports st' plan' done.files began').jobs.map Job.task ↔
      ∃ j ∈ done.jobs, j.task = some t ∧ (∃ e, j.result? = some (.error e)) ∧
        isExported done.files st.exporter.mover t.source = false) ∧
    ((summarize st.stop began done.jobs).failed = 0 →
      (summarize st.stop began done.jobs).timedOut = false → ∀ plan',
        (run st' plan' done.files).files = done.files ∧
          (run st' plan' done.files).summary.submitted = 0 ∧
          (run st' plan' done.files).summary.flushed = 0 ∧
          (run st' plan' done.files).summary.failed = 0) ∧
    Passes st plan fs began (exports st plan fs began).run ∧
      (run st plan fs).files = (exports st plan fs began).run.files ∧
      (run st plan fs).summary = summarize st.stop began (exports st plan fs began).run.jobs := by
  have hsame : pending done.files st'.src st'.pattern st'.exporter.mover =
      pending done.files st.src st.pattern st.exporter.mover := by
    have htarget : st'.exporter.mover.targetFor = st.exporter.mover.targetFor := by
      funext p compress
      rw [Mover.targetFor, Mover.targetFor, hdest]
    have hjudge : judge done.files st'.src st'.pattern st'.exporter.mover =
        judge done.files st.src st.pattern st.exporter.mover := by
      funext f
      cases f <;> simp [judge, isExported, hsrc, hpattern, htarget]
    rw [pending, pending, hjudge, hsrc]
  refine ⟨fun plan' began' t => ?_, fun hfailed htime plan' => ?_,
    run_passes h.scanned h.in_time⟩
  · have htasks : (exports st' plan' done.files began').jobs.map Job.task =
        (pending done.files st.src st.pattern st.exporter.mover).1.map some := by
      rw [exports, List.map_map, hsame]
      rfl
    rw [htasks, List.mem_map_of_injective fun _ _ => Option.some.inj, h.mem_pending_iff hs hplan]
  · refine run_of_pending_eq_nil (hsame ▸ List.eq_nil_iff_forall_not_mem.mpr fun t ht => ?_)
    obtain ⟨j, hj, -, e, hr⟩ := h.failed_of_pending hs hplan ht
    exact result_ne_error hfailed htime hj e hr

/-! ### A destination in the source -/

def innerSetting : Setting where
  src := ⟨[47, 115]⟩
  pattern := ⟨[]⟩
  exporter := ⟨{ destination := ⟨[47, 115, 47, 100]⟩ }, {}⟩
  active := false

def innerFiles : FileSystem :=
  ⟨[([[115]], .directory), ([[100], [115]], .directory), ([nestedName, [115]], .file 0)], [[1]], []⟩

def innerEnd : FileSystem :=
  { innerFiles with
    entries := innerFiles.entries ++ [([nestedName, [100], [115]], .file 1)]
    contents := [[1], [1]] }

theorem pending_inner : (pending innerFiles innerSetting.src innerSetting.pattern
    innerSetting.exporter.mover).1 =
      [⟨innerSetting.src.join nestedName, ⟨0, "e", ""⟩, .terminal⟩] := by
  have hd : innerFiles.stat innerSetting.src = .ok ([[115]], .directory) := by decide
  have hs : innerFiles.children [[115]] = [([100], .directory), (nestedName, .file 0)] :=
    List.mergeSort_of_pairwise (by decide)
  have hi : innerFiles.children [[100], [115]] = [] := List.mergeSort_of_pairwise (by decide)
  have hwalk : walk innerFiles innerSetting.src = [.file (innerSetting.src.join nestedName)] := by
    rw [walk_of_stat hd, show innerFiles.entries.length = 3 from rfl, walkDirectory_succ, hs]
    simp only [List.flatMap_cons, findsAt, walkDirectory_succ, hi]
    decide
  rw [pending, hwalk]
  decide

/-- The second scan comes by the copy of the segment, which is not copied onto itself. -/
theorem runs_again_of_inner : innerFiles.Sound ∧
    Passes innerSetting [] innerFiles 0 (exports innerSetting [] innerFiles 0).run ∧
    (run innerSetting [] innerFiles).files = innerEnd ∧
    FoundAt innerEnd innerSetting.src (innerSetting.src.below [nestedName, [100]])
      [nestedName, [100], [115]] ∧
    ∀ plan, (run innerSetting plan innerEnd).files = innerEnd ∧
      (run innerSetting plan innerEnd).summary.submitted = 0 := by
  have hs : innerFiles.Sound := by decide
  have hplan : ∀ a ∈ ([] : Plan), a.unlinks = none := by simp
  have hrun : (exports innerSetting [] innerFiles 0).run.files = innerEnd ∧
      summarize innerSetting.stop 0 (exports innerSetting [] innerFiles 0).run.jobs =
        { submitted := 1, flushed := 1 } := by
    simp only [exports, pending_inner]
    decide
  obtain ⟨hend, hsummary⟩ := hrun
  obtain ⟨hpasses, hfiles, -⟩ :=
    @run_passes innerFiles innerSetting [] 0 rfl (by decide)
  have hfound : FoundAt innerEnd innerSetting.src (innerSetting.src.below [nestedName, [100]])
      [nestedName, [100], [115]] :=
    @FoundAt.inside _ _ [[115]] nestedName [[100]] 1 (by decide) (by decide) (by decide)
  refine ⟨hs, hpasses, hfiles.trans hend, hfound, fun plan => ?_⟩
  obtain ⟨hkept, hsubmitted, -, -⟩ :=
    (runs_again hs hplan hpasses rfl rfl rfl).2.1 (by rw [hsummary]) (by rw [hsummary]) plan
  rw [hend] at hkept hsubmitted
  exact ⟨hkept, hsubmitted⟩

end CaptureExport.Flush
