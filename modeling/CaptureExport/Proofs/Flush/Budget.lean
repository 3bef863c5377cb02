import CaptureExport.Proofs.Clock.Instants
import CaptureExport.Proofs.Export.Owners
import CaptureExport.Proofs.Flush.Again

/-! # A flush within its budget

A flush reads its counters when its budget ends, whatever its exports are doing then. Exports that
have ended later are not counted, and those that have failed or been cancelled have left nothing:
all that a flush adds are complete copies, one for each export that has succeeded.
-/

namespace CaptureExport.Flush

open FileSystem

variable {stop began : Duration} {jobs : List Job} {j : Job}

theorem endedBefore_false (hr : j.result?.isSome) (hlt : j.time < stop) :
    endedBefore stop false j = !endedBefore stop true j := by
  unfold endedBefore
  cases hj : j.result? with
  | none => simp [hj] at hr
  | some r => cases r <;> simp [hlt, Except.isOk, Except.toBool]

theorem endedBefore_disjoint (h : endedBefore stop false j = true) :
    (!endedBefore stop true j) = true := by
  unfold endedBefore at h ⊢
  cases hj : j.result? with
  | none => rfl
  | some r => cases r <;> simp_all [Except.isOk, Except.toBool]

theorem counted_le (stop began : Duration) (jobs : List Job) :
    (summarize stop began jobs).flushed + (summarize stop began jobs).failed ≤
      (summarize stop began jobs).submitted := by
  simp only [summarize]
  rw [List.length_eq_length_filter_add (endedBefore stop true) (l := jobs)]
  refine Nat.add_le_add_left (List.Sublist.length_le ?_) _
  exact List.monotone_filter_right _ fun j hj => endedBefore_disjoint hj

theorem counted_eq (hended : ∀ j ∈ jobs, j.result?.isSome)
    (htime : (summarize stop began jobs).timedOut = false) :
    (summarize stop began jobs).flushed + (summarize stop began jobs).failed =
      (summarize stop began jobs).submitted := by
  simp only [summarize, List.any_eq_false, decide_eq_true_eq, Nat.not_le] at htime ⊢
  rw [List.length_eq_length_filter_add (endedBefore stop true) (l := jobs)]
  congr 2
  exact List.filter_congr fun j hj => endedBefore_false (hended j hj) (htime j hj)

theorem phase_of_endedBefore (h : endedBefore stop true j = true) :
    ∃ report, j.phase = .ended (.ok report) := by
  unfold endedBefore at h
  cases hj : j.result? with
  | none => simp [hj] at h
  | some r =>
    obtain ⟨r', hp⟩ := Job.phase_eq_ended (Option.isSome_of_eq_some hj)
    obtain rfl : r' = r := by simpa [Job.result?, hp, Move.Phase.result?] using hj
    cases r' with
    | ok report => exact ⟨report, hp⟩
    | error e => simp [hj, Except.isOk, Except.toBool] at h

theorem foldl_max_le {times : List Instant} {limit : Instant} (hb : began ≤ limit)
    (ht : ∀ t ∈ times, t ≤ limit) : times.foldl max began ≤ limit := by
  induction times generalizing began with
  | nil => exact hb
  | cons t times ih =>
    obtain ⟨hfirst, hrest⟩ := List.forall_mem_cons.mp ht
    exact ih (Nat.max_le.mpr ⟨hb, hfirst⟩) hrest

theorem latency_le (hlt : began < stop) : (summarize stop began jobs).latency ≤ stop := by
  simp only [summarize]
  split
  · exact Nat.le_refl _
  · rename_i hlate
    refine foldl_max_le (Nat.le_of_lt hlt) fun t ht => ?_
    obtain ⟨j, hj, rfl⟩ := List.mem_map.mp ht
    simp only [List.any_eq_true, decide_eq_true_eq, not_exists, not_and, Nat.not_le] at hlate
    exact Nat.le_of_lt (hlate j hj)

theorem stop_le_timeout (st : Setting) : st.stop ≤ st.timeout := by
  unfold Setting.stop
  split
  · exact Nat.min_le_right _ _
  · exact Nat.le_refl _

theorem FoundAt.fileName?_eq {fs : FileSystem} {src p : Path} {loc : Location} (hs : fs.Sound)
    (h : FoundAt fs src p loc) : p.fileName? = some (Mover.nameFor p) := by
  obtain ⟨name, hname⟩ : ∃ name, p.fileName? = some name := by
    cases h with
    | itself _ hp _ =>
      obtain ⟨name, parent, -, -, hfile⟩ := fileName?_of_place hs hp
      exact ⟨name, hfile⟩
    | inside _ hn _ => exact ⟨_, Path.fileName?_join (hs.isName hn).toIsWord⟩
  simp [Mover.nameFor, hname]

section Passes

variable {fs : FileSystem} {st : Setting} {plan : Plan} {done : Schedule} {loc : Location}
  {p : Path} {t : ExportTask} {i : ℕ}
  (hs : fs.Sound) (hplan : ∀ a ∈ plan, a.unlinks = none) (h : Passes st plan fs began done)
include hs hplan h

theorem Passes.exists_task (hj : j ∈ done.jobs) : ∃ t loc,
    t ∈ (pending fs st.src st.pattern st.exporter.mover).1 ∧ j.task = some t ∧
      j.source = t.source ∧ j.options = {} ∧ FoundAt fs st.src t.source loc := by
  obtain ⟨j₀, hj₀, htask, hsource, hoptions⟩ := (h.keeping hs hplan).exists_first hj
  obtain ⟨p, loc, key, hf, hkey, hx, rfl⟩ := (mem_exports_iff hs).mp hj₀
  exact ⟨⟨p, key, .terminal⟩, loc, (Flush.mem_pending_iff hs).mpr ⟨p, loc, key, hf, hkey, hx, rfl⟩,
    htask.symm, hsource.symm, hoptions.symm, hf⟩

theorem Passes.owned : Schedule.Owned (exports st plan fs began) done := by
  refine h.steps.owned hs (apart_exports hs) (fun j hj => ?_) hplan (fun j hj => ?_) fun j hj => ?_
  all_goals obtain ⟨p, loc, key, hf, -, -, rfl⟩ := (mem_exports_iff hs).mp hj
  · rfl
  · rfl
  · exact Path.endsInSeparator_join (hf.isWord hs)

/-- What a flush has created when its exports have ended are complete copies of segments, each at
the target of an export that has succeeded. -/
theorem Passes.delivered (hloc : loc ∈ created fs done.files) :
    ∃ j ∈ done.jobs, ∃ t report content, j.task = some t ∧ j.result? = some (.ok report) ∧
      t ∈ (pending fs st.src st.pattern st.exporter.mover).1 ∧
      fs.place? false (st.exporter.mover.targetFor t.source false) = some loc ∧
      loc.head? = t.source.fileName? ∧ fs.readFile t.source = .ok content ∧
      done.files.standing? loc = some (.file content) := by
  have hk := h.keeping hs hplan
  obtain ⟨hfree, hstands⟩ := (mem_created_iff hk.sound).mp hloc
  obtain ⟨i, j, report, hj, hp, hplace⟩ := (h.owned hs hplan).ended h.ended hfree hstands
  have hmem := List.mem_of_getElem? hj
  obtain ⟨t, l, ht, htask, hsource, hoptions, hf⟩ := h.exists_task hs hplan hmem
  obtain ⟨loc', content, hplace', -, hread, hcopy⟩ := hk.delivered hj hp
  obtain rfl : loc' = loc := Option.some.inj (hplace'.symm.trans hplace)
  rw [hsource, hoptions] at hplace
  refine ⟨j, hmem, t, report, content, htask, ?_, ht, hplace, ?_, hsource ▸ hread, ?_⟩
  · simp [Job.result?, hp, Move.Phase.result?]
  · obtain ⟨name, parent, rfl, -, hfile⟩ := fileName?_of_place hs hplace
    rw [hf.fileName?_eq hs, List.head?_cons, ← hfile]
    exact Path.fileName?_join (hf.isWord hs)
  · simpa [hoptions, Handles.rendering] using hcopy

theorem Passes.flushed_le : (summarize st.stop began done.jobs).flushed ≤
    (created fs done.files).length := by
  have hk := h.keeping hs hplan
  let place (j : Job) : Location :=
    (fs.place? false (Move.target st.exporter.mover j.source j.options)).getD []
  have hcopy {i : ℕ} {j : Job} (hj : done.jobs[i]? = some j)
      (hflushed : endedBefore st.stop true j = true) : j.phase.Holds ∧
        fs.place? false (Move.target st.exporter.mover j.source j.options) = some (place j) ∧
        place j ∈ created fs done.files := by
    obtain ⟨report, hp⟩ := phase_of_endedBefore hflushed
    obtain ⟨loc, content, hplace, hfree, -, hstands⟩ := hk.delivered hj hp
    have hloc : place j = loc := congrArg (Option.getD · []) hplace
    refine ⟨by rw [hp]; trivial, hloc ▸ hplace, hloc ▸ (mem_created_iff hk.sound).mpr ⟨hfree, ?_⟩⟩
    simp [hstands]
  have hnodup : ((done.jobs.filter (endedBefore st.stop true)).map place).Nodup := by
    refine List.pairwise_map.mpr (List.pairwise_filter.mpr (List.pairwise_iff_getElem.mpr ?_))
    intro i k hi hk' hlt hfi hfk he
    obtain ⟨hh, hplace, -⟩ := hcopy (List.getElem?_eq_getElem hi) hfi
    obtain ⟨hh', hplace', -⟩ := hcopy (List.getElem?_eq_getElem hk') hfk
    refine hk.place_ne (List.getElem?_eq_getElem hi) (List.getElem?_eq_getElem hk')
      (Nat.ne_of_lt hlt) hh hh' ?_
    exact hplace.trans ((congrArg some he).trans hplace'.symm)
  have hsub : (done.jobs.filter (endedBefore st.stop true)).map place ⊆ created fs done.files := by
    intro loc hloc
    obtain ⟨j, hj, rfl⟩ := List.mem_map.mp hloc
    obtain ⟨hj, hflushed⟩ := List.mem_filter.mp hj
    obtain ⟨i, hi⟩ := List.mem_iff_getElem?.mp hj
    exact (hcopy hi hflushed).2.2
  have hlength := (List.subperm_of_subset hnodup hsub).length_le
  rwa [List.length_map] at hlength

theorem Passes.isExported_cases (hx : isExported done.files st.exporter.mover p = true) :
    isExported fs st.exporter.mover p = true ∨ ∃ compress loc node,
      done.files.stat (st.exporter.mover.targetFor p compress) = .ok (loc, node) ∧
        loc ∈ created fs done.files := by
  have hk := h.keeping hs hplan
  have hcase {compress : Bool}
      (hp : done.files.hasPath (st.exporter.mover.targetFor p compress) = true) :
      fs.hasPath (st.exporter.mover.targetFor p compress) = true ∨ ∃ compress loc node,
        done.files.stat (st.exporter.mover.targetFor p compress) = .ok (loc, node) ∧
          loc ∈ created fs done.files := by
    obtain ⟨⟨loc, node⟩, hstat⟩ := hasPath_iff.mp hp
    exact (hk.adds.stat_cases hk.sound hstat).imp_right fun hloc =>
      ⟨compress, loc, node, hstat, hloc⟩
  simp only [isExported, Bool.or_eq_true] at hx ⊢
  rcases hx with hx | hx
  · exact (hcase hx).imp_left Or.inl
  · exact (hcase hx).imp_left Or.inr

end Passes

/-- What a flush reports, however far its exports have come. -/
structure Reports (st : Setting) (summary : FlushSummary) : Prop where
  counted : summary.flushed + summary.failed ≤ summary.submitted
  settled : summary.timedOut = false → summary.flushed + summary.failed = summary.submitted
  in_budget : summary.latency ≤ st.timeout

/-- What the exports of a flush leave when all of them have ended. -/
structure Leaves (st : Setting) (fs : FileSystem) (began : Duration) (done : Schedule) : Prop where
  /-- An export has been submitted for each pending segment. -/
  tasks_eq : done.jobs.map Job.task =
    (pending fs st.src st.pattern st.exporter.mover).1.map some
  /-- What was there before is there as it was. -/
  kept : ∀ loc, fs.standing? loc ≠ none → done.files.standing? loc = fs.standing? loc
  /-- What is new are complete copies of segments, each under the name of its segment and made by
  an export that has succeeded. -/
  delivered : ∀ loc ∈ created fs done.files, ∃ j ∈ done.jobs, ∃ t report content,
    j.task = some t ∧ j.result? = some (.ok report) ∧
      t ∈ (pending fs st.src st.pattern st.exporter.mover).1 ∧
      fs.place? false (st.exporter.mover.targetFor t.source false) = some loc ∧
      loc.head? = t.source.fileName? ∧ fs.readFile t.source = .ok content ∧
      done.files.standing? loc = some (.file content)
  flushed_le : (summarize st.stop began done.jobs).flushed ≤ (created fs done.files).length
  /-- Nothing else than these copies is newly taken for an export. -/
  taken : ∀ p, isExported done.files st.exporter.mover p = true →
    isExported fs st.exporter.mover p = true ∨ ∃ compress loc node,
      done.files.stat (st.exporter.mover.targetFor p compress) = .ok (loc, node) ∧
        loc ∈ created fs done.files
  /-- A task that has failed is found again, unless such a copy has the name of its target. -/
  again : ∀ j ∈ done.jobs, ∀ t e, j.task = some t → j.result? = some (.error e) →
    t ∈ (pending done.files st.src st.pattern st.exporter.mover).1 ∨ ∃ compress loc node,
      done.files.stat (st.exporter.mover.targetFor t.source compress) = .ok (loc, node) ∧
        loc ∈ created fs done.files

section Run

variable {fs : FileSystem} {st : Setting} {plan : Plan} {done : Schedule}

theorem Passes.reports (h : Passes st plan fs began done) :
    Reports st (summarize st.stop began done.jobs) where
  counted := counted_le st.stop began done.jobs
  settled := counted_eq h.ended
  in_budget := Nat.le_trans (latency_le h.in_time) (stop_le_timeout st)

theorem Passes.leaves (hs : fs.Sound) (hplan : ∀ a ∈ plan, a.unlinks = none)
    (h : Passes st plan fs began done) : Leaves st fs began done := by
  have hk := h.keeping hs hplan
  refine ⟨?_, fun loc => hk.standing_eq hs, fun loc => h.delivered hs hplan,
    h.flushed_le hs hplan, fun p => h.isExported_cases hs hplan, fun j hj t e htask hr => ?_⟩
  · rw [hk.task_eq, exports, List.map_map]
    rfl
  · cases hx : isExported done.files st.exporter.mover t.source with
    | false => exact Or.inl ((h.mem_pending_iff hs hplan).mpr ⟨j, hj, htask, ⟨e, hr⟩, hx⟩)
    | true =>
      refine (h.isExported_cases hs hplan hx).elim (fun hold => ?_) Or.inr
      obtain ⟨t', loc, ht, htask', -⟩ := h.exists_task hs hplan hj
      obtain rfl : t = t' := Option.some.inj (htask.symm.trans htask')
      obtain ⟨p, l, key, -, -, hnot, rfl⟩ := (Flush.mem_pending_iff hs).mp ht
      exact absurd (hnot.symm.trans hold) Bool.false_ne_true

structure Stopped (st : Setting) (plan : Plan) (fs : FileSystem) : Prop where
  summary_eq : (run st plan fs).summary = { timedOut := true, latency := st.stop }
  files_eq : (run st plan fs).files = fs

/-- A flush whose scan is in time goes one way that its exports may take. -/
structure Goes (st : Setting) (plan : Plan) (fs : FileSystem) (began : Duration) : Prop where
  passes : Passes st plan fs began (exports st plan fs began).run
  files_eq : (run st plan fs).files = (exports st plan fs began).run.files
  summary_eq : (run st plan fs).summary =
    summarize st.stop began (exports st plan fs began).run.jobs

/-- The exports of a flush may make their steps in any order and at any time, so that each may have
ended by the stop or later, while nobody else touches the files. -/
structure Accounts (now : Instant) (st : Setting) (plan : Plan) (fs : FileSystem) : Prop where
  call_eq : ¬ Instant.Overflows now st.timeout → call now st plan fs = .ok (run st plan fs)
  panics : Instant.Overflows now st.timeout →
    call now st plan fs = .error Instant.overflowMessage
  reports : Reports st (run st plan fs).summary
  stopped : (∀ began, st.scanned = some began → st.stop ≤ began) → Stopped st plan fs
  accounts : ∀ began done, Passes st plan fs began done →
    Reports st (summarize st.stop began done.jobs)
  leaves : ∀ began done, Passes st plan fs began done → fs.Sound →
    (∀ a ∈ plan, a.unlinks = none) → Leaves st fs began done
  goes : ∀ began, st.scanned = some began → began < st.stop → Goes st plan fs began

end Run

/-! ### A cancelled export -/

end CaptureExport.Flush
