import CaptureExport.Proofs.Export.Batch
import CaptureExport.Proofs.Rotation.Pairing

/-! # Runs of the pipeline

Files are written to the source directory and dispatched, and each export that a dispatch launches
moves on at its own pace. Whatever becomes of the attempts, every move is in one of its stages, and
no file is moved twice.
-/

namespace CaptureExport.Pipeline

open FileSystem

/-- The files so far, those written to the source directory, the names dispatched, and the exports
launched. -/
structure State where
  files : FileSystem
  written : List (Name × Bytes) := []
  dispatched : List Name := []
  tracker : Tracker := {}
  jobs : List Job := []

/-- A name that is neither taken nor tells apart from a written one by the suffix of compressed
targets only. -/
def IsNew (written : List (Name × Bytes)) (name : Name) : Prop :=
  ∀ w ∈ written, w.1 ≠ name ∧ w.1 ≠ name ++ Mover.gzipSuffix ∧ name ≠ w.1 ++ Mover.gzipSuffix

/-- A file is written, the path of a written file is dispatched, or an export makes a step, in which
its attempt does anything but interfere with other files. -/
inductive Step (pattern : SegmentPattern) (x : Exporter) (src : Path) : State → State → Prop where
  | writes {s : State} {fs : FileSystem} {id : FileId} (name : Name) (content : Bytes)
      (hw : IsWord name) (hn : IsNew s.written name)
      (hc : s.files.createNew (src.join name) = .ok (fs, id)) :
      Step pattern x src s
        { s with files := fs.setContent id content, written := s.written ++ [(name, content)] }
  | dispatches {s : State} (name : Name) (now : Instant) (hw : name ∈ s.written.map Prod.fst)
      (hd : name ∉ s.dispatched) :
      Step pattern x src s
        { s with
          dispatched := s.dispatched ++ [name]
          tracker := (Dispatch.alone pattern (src.join name) s.tracker).tracker
          jobs := s.jobs ++ (Dispatch.alone pattern (src.join name) s.tracker).task.toList.map
            fun t => Job.ofTask x t now }
  | exports {s : State} {i : ℕ} {j : Job} (a : Attempt) (cancelled : Bool) (now : Instant)
      (ha : a.unlinks = none) (hj : s.jobs[i]? = some j) :
      Step pattern x src s
        { s with
          files := (Move.step x.mover j.source j.options a cancelled j.phase s.files).files
          jobs := s.jobs.set i
            { j with
              phase := (Move.step x.mover j.source j.options a cancelled j.phase s.files).phase
              time := now
              steps := j.steps + 1 } }

inductive Reached (pattern : SegmentPattern) (x : Exporter) (src : Path) (fs : FileSystem) :
    State → Prop where
  | start : Reached pattern x src fs { files := fs }
  | step {s s' : State} (h : Reached pattern x src fs s) (hs : Step pattern x src s s') :
      Reached pattern x src fs s'

/-- What stands at a location when files have been written and nothing has been moved. -/
def landed (site : Site) (fs : FileSystem) (written : List (Name × Bytes)) (loc : Location) :
    Option Standing :=
  match written.find? fun w => site.sourceOf w.1 = loc with
  | some w => some (.file w.2)
  | none => fs.standing? loc

/-- Before anything is written, the destination is empty and no segment lies at or below the source
directory. -/
structure Fresh (pattern : SegmentPattern) (site : Site) (fs : FileSystem) : Prop where
  on : site.On fs
  apart : site.Apart
  empty : ∀ loc, isWithin site.dstLoc loc → loc ≠ site.dstLoc → fs.node? loc = none
  clean : ∀ name parent id, isWithin site.srcLoc parent →
    fs.node? (name :: parent) = some (.file id) → pattern.key? ⟨name⟩ = none

/-- What holds of every state reached. -/
structure Invariant (pattern : SegmentPattern) (x : Exporter) (site : Site) (fs : FileSystem)
    (s : State) : Prop where
  batch : Batch site x.streaming s.written (landed site fs s.written) s.jobs s.files
  admits : ∀ w ∈ s.written, Admits site.src w.1
  names_nodup : (s.written.map Prod.fst).Nodup
  no_suffix : ∀ v ∈ s.written, ∀ w ∈ s.written, v.1 ≠ w.1 ++ Mover.gzipSuffix
  dispatched_written : ∀ name ∈ s.dispatched, name ∈ s.written.map Prod.fst
  dispatched_nodup : s.dispatched.Nodup
  paired : ∃ results tasks, Dispatch.Paired pattern (s.dispatched.map site.src.join) results
    s.tracker tasks ∧ s.jobs.map Job.source = tasks.map ExportTask.source

variable {pattern : SegmentPattern} {x : Exporter} {site : Site} {fs gs : FileSystem}
  {s s' : State} {written : List (Name × Bytes)} {loc : Location} {name : Name} {content : Bytes}

theorem landed_of_not_written (h : ∀ w ∈ written, site.sourceOf w.1 ≠ loc) :
    landed site fs written loc = fs.standing? loc := by
  have hf : (written.find? fun w => site.sourceOf w.1 = loc) = none := by simpa using h
  rw [landed, hf]

theorem landed_source {w : Name × Bytes} (hd : (written.map Prod.fst).Nodup) (hw : w ∈ written) :
    landed site fs written (site.sourceOf w.1) = some (.file w.2) := by
  unfold landed
  cases hf : written.find? fun v => site.sourceOf v.1 = site.sourceOf w.1 with
  | none =>
    rw [List.find?_eq_none] at hf
    exact absurd (hf w hw) (by simp)
  | some v =>
    have hv : v.1 = w.1 := Site.source_injective (by simpa using List.find?_some hf)
    obtain rfl : v = w := List.inj_on_of_nodup_map hd (List.mem_of_find?_eq_some hf) hw hv
    rfl

theorem landed_concat (hn : ∀ w ∈ written, w.1 ≠ name) :
    landed site fs (written ++ [(name, content)]) loc =
      if loc = site.sourceOf name then some (.file content) else landed site fs written loc := by
  by_cases hl : loc = site.sourceOf name
  · subst hl
    have hf : (written.find? fun w => site.sourceOf w.1 = site.sourceOf name) = none := by
      simp only [List.find?_eq_none, decide_eq_true_eq]
      exact fun w hw he => hn w hw (Site.source_injective he)
    simp [landed, List.find?_append, hf]
  · have hl' : ¬ site.sourceOf name = loc := fun h => hl h.symm
    simp [landed, List.find?_append, hl, hl']

theorem Fresh.landed_target (h : Fresh pattern site fs) (compress : Bool) :
    landed site fs written (site.targetOf compress name) = none := by
  rw [landed_of_not_written fun w _ => Site.source_ne_target h.apart _ _ _]
  exact standing?_eq_none_iff.mpr (h.empty _ (isWithin_cons _ _) (List.cons_ne_self _ _))

namespace Invariant

theorem mem_written (h : Invariant pattern x site fs s) {p : Path}
    (hp : p ∈ s.dispatched.map site.src.join) : ∃ w ∈ s.written, p = site.src.join w.1 := by
  obtain ⟨name, hd, rfl⟩ := List.mem_map.mp hp
  obtain ⟨w, hw, rfl⟩ := List.mem_map.mp (h.dispatched_written name hd)
  exact ⟨w, hw, rfl⟩

theorem paths_nodup (h : Invariant pattern x site fs s) :
    (s.dispatched.map site.src.join).Nodup := by
  have hword {name : Name} (hn : name ∈ s.dispatched) : IsWord name := by
    obtain ⟨w, hw, rfl⟩ := List.mem_map.mp (h.dispatched_written name hn)
    exact (h.admits w hw).toIsWord
  exact List.Nodup.map_on (fun a ha b hb he => Path.join_injective (hword ha) (hword hb) he)
    h.dispatched_nodup

theorem segment (h : Invariant pattern x site fs s) {j : Job} (hj : j ∈ s.jobs) :
    ∃ key, pattern.key? j.source = some key := by
  obtain ⟨results, tasks, hp, hs⟩ := h.paired
  have hm : j.source ∈ tasks.map ExportTask.source := hs ▸ List.mem_map_of_mem hj
  obtain ⟨t, ht, he⟩ := List.mem_map.mp hm
  have hseg := Dispatch.mem_segmentsOf.mp (List.dropLast_subset _ (hp.source_mem ht))
  exact ⟨t.key, he ▸ hseg.2⟩

theorem start (hf : Fresh pattern site fs) : Invariant pattern x site fs { files := fs } where
  batch := by
    refine ⟨hf.on, by simp, List.nodup_nil, by simp, fun loc _ => ?_⟩
    exact (landed_of_not_written (by simp)).symm
  admits := by simp
  names_nodup := List.nodup_nil
  no_suffix := by simp
  dispatched_written := by simp
  dispatched_nodup := List.nodup_nil
  paired := ⟨[], [], Dispatch.all_paired pattern [], rfl⟩

theorem writes (h : Invariant pattern x site fs s) (hap : site.Apart) {id : FileId}
    (hw : IsWord name) (hn : IsNew s.written name)
    (hc : s.files.createNew (site.src.join name) = .ok (gs, id)) :
    Invariant pattern x site fs
      { s with files := gs.setContent id content, written := s.written ++ [(name, content)] } := by
  obtain ⟨hadm, hfree, rfl, rfl⟩ := createNew_join_eq_ok h.batch.on.src hw hc
  have hnew : ∀ w ∈ s.written, w.1 ≠ name := fun w hm => (hn w hm).1
  constructor
  case batch =>
    rw [setContent_insertFile]
    exact h.batch.write hap hfree hadm hnew fun loc => landed_concat hnew
  case admits =>
    intro w hm
    rcases List.mem_append.mp hm with hm | hm
    · exact h.admits w hm
    · obtain rfl := List.mem_singleton.mp hm
      exact hadm
  case names_nodup =>
    rw [List.map_append]
    refine List.nodup_append_comm.mp (List.nodup_cons.mpr ⟨fun hm => ?_, h.names_nodup⟩)
    obtain ⟨w, hw, he⟩ := List.mem_map.mp hm
    exact hnew w hw he
  case no_suffix =>
    intro v hv w hm
    rcases List.mem_append.mp hv with hv | hv <;> rcases List.mem_append.mp hm with hm | hm
    · exact h.no_suffix v hv w hm
    · obtain rfl := List.mem_singleton.mp hm
      exact (hn v hv).2.1
    · obtain rfl := List.mem_singleton.mp hv
      exact (hn w hm).2.2
    · obtain rfl := List.mem_singleton.mp hv
      obtain rfl := List.mem_singleton.mp hm
      intro he
      exact absurd (congrArg List.length he) (by simp [Mover.gzipSuffix_eq])
  case dispatched_written =>
    intro n hd
    rw [List.map_append]
    exact List.mem_append_left _ (h.dispatched_written n hd)
  case dispatched_nodup => exact h.dispatched_nodup
  case paired => exact h.paired

theorem launches (h : Invariant pattern x site fs s) (hf : Fresh pattern site fs) {key : StreamKey}
    {previous : Path} {now : Instant} {t : ExportTask}
    (hl : (Dispatch.segmentsOf pattern key (s.dispatched.map site.src.join)).getLast? =
      some previous)
    (hs : t.source = previous) (ht : t.isTerminal = false) :
    Batch site x.streaming s.written (landed site fs s.written) (s.jobs ++ [Job.ofTask x t now])
      s.files := by
  obtain ⟨results, tasks, hp, hsources⟩ := h.paired
  have hm := (Dispatch.mem_segmentsOf.mp (List.mem_of_getLast? hl)).1
  obtain ⟨w, hw, rfl⟩ := h.mem_written hm
  refine h.batch.append hf.apart hw (h.admits w hw) (fun k hk he => ?_)
    (landed_source h.names_nodup hw) (hf.landed_target _) hs ?_ rfl
  · have hk' : k.source ∈ tasks.map ExportTask.source := hsources ▸ List.mem_map_of_mem hk
    obtain ⟨t', ht', he'⟩ := List.mem_map.mp hk'
    exact hp.last_not_exported h.paths_nodup hl t' ht' (he'.trans he)
  · simp [Job.ofTask, Exporter.optionsFor, ht]

theorem dispatches (h : Invariant pattern x site fs s) (hf : Fresh pattern site fs) {now : Instant}
    (hw : name ∈ s.written.map Prod.fst) (hd : name ∉ s.dispatched) :
    Invariant pattern x site fs
      { s with
        dispatched := s.dispatched ++ [name]
        tracker := (Dispatch.alone pattern (site.src.join name) s.tracker).tracker
        jobs := s.jobs ++ (Dispatch.alone pattern (site.src.join name) s.tracker).task.toList.map
          fun t => Job.ofTask x t now } := by
  obtain ⟨results, tasks, hp, hsources⟩ := h.paired
  generalize hpath : site.src.join name = p
  have hpaths : (s.dispatched ++ [name]).map site.src.join =
      s.dispatched.map site.src.join ++ [p] := by simp [hpath]
  have hwritten : ∀ n ∈ s.dispatched ++ [name], n ∈ s.written.map Prod.fst := by
    intro n hn
    rcases List.mem_append.mp hn with hn | hn
    · exact h.dispatched_written n hn
    · exact List.mem_singleton.mp hn ▸ hw
  have hnodup : (s.dispatched ++ [name]).Nodup :=
    List.nodup_append_comm.mp (List.nodup_cons.mpr ⟨hd, h.dispatched_nodup⟩)
  cases hk : pattern.key? p with
  | none =>
    rw [Dispatch.alone_of_not_segment hk]
    refine ⟨by simpa using h.batch, h.admits, h.names_nodup, h.no_suffix, hwritten, hnodup, ?_⟩
    refine ⟨_, _, hpaths ▸ hp.concat_not_segment hk, ?_⟩
    simpa using hsources
  | some key =>
    have hne : ∀ q ∈ Dispatch.segmentsOf pattern key (s.dispatched.map site.src.join),
        q.bytes ≠ [] := fun q hq =>
      SegmentPattern.bytes_ne_nil_of_key? (Dispatch.mem_segmentsOf.mp hq).2
    have hpaired := hp.concat_segment hk
    obtain ⟨-, ht, -, -⟩ := Dispatch.alone_of_segment hk (hp.slot_eq key) hne
    refine ⟨?_, h.admits, h.names_nodup, h.no_suffix, hwritten, hnodup, _, _, hpaths ▸ hpaired, ?_⟩
    · rw [ht]
      cases hl : (Dispatch.segmentsOf pattern key (s.dispatched.map site.src.join)).getLast? with
      | none => simpa using h.batch
      | some previous => exact h.launches hf hl rfl rfl
    · simp only [List.map_append, hsources, List.map_map]
      rfl

theorem exports (h : Invariant pattern x site fs s) (hap : site.Apart)
    (hd : x.mover.destination = site.dst) {i : ℕ} {j : Job} {a : Attempt} {cancelled : Bool}
    {now : Instant} (ha : a.unlinks = none) (hj : s.jobs[i]? = some j) :
    Invariant pattern x site fs
      { s with
        files := (Move.step x.mover j.source j.options a cancelled j.phase s.files).files
        jobs := s.jobs.set i
          { j with
            phase := (Move.step x.mover j.source j.options a cancelled j.phase s.files).phase
            time := now
            steps := j.steps + 1 } } := by
  have ho : j.options = x.streaming := h.batch.options_eq j (List.mem_of_getElem? hj)
  generalize hstep : Move.step x.mover j.source j.options a cancelled j.phase s.files = o
  have hturn : Move.Turn x.mover j.source j.options a j.phase s.files o.phase o.files :=
    hstep ▸ Move.step_turn ha
  constructor
  case batch =>
    refine h.batch.set hap hj rfl rfl fun w _ hs hn hst => ?_
    exact hst.advances h.batch.on hap hn hd (congrArg MoveOptions.compress ho) (hs ▸ hturn)
  case admits => exact h.admits
  case names_nodup => exact h.names_nodup
  case no_suffix => exact h.no_suffix
  case dispatched_written => exact h.dispatched_written
  case dispatched_nodup => exact h.dispatched_nodup
  case paired =>
    obtain ⟨results, tasks, hp, hsources⟩ := h.paired
    refine ⟨results, tasks, hp, Eq.trans (map_set_eq hj ?_) hsources⟩
    rfl

end Invariant

theorem Step.invariant (hf : Fresh pattern site fs) (hd : x.mover.destination = site.dst)
    (hs : Step pattern x site.src s s') (h : Invariant pattern x site fs s) :
    Invariant pattern x site fs s' := by
  cases hs with
  | writes name content hw hn hc => exact h.writes hf.apart hw hn hc
  | dispatches name now hw hd => exact h.dispatches hf hw hd
  | exports a cancelled now ha hj => exact h.exports hf.apart hd ha hj

theorem Reached.invariant (hf : Fresh pattern site fs) (hd : x.mover.destination = site.dst)
    (h : Reached pattern x site.src fs s) : Invariant pattern x site fs s := by
  induction h with
  | start => exact .start hf
  | step _ hs ih => exact hs.invariant hf hd ih

end CaptureExport.Pipeline
