import CaptureExport.Proofs.Export.Schedule
import CaptureExport.Proofs.Flush.Scan
import CaptureExport.Proofs.Pipeline.Run

/-! # The end of all exports

Once the exports have ended, every written file either has one complete target or is still there
without any. A scan finds the segments among the latter, and its tasks are moves of different
files again.
-/

namespace CaptureExport.Pipeline

open FileSystem

def Exported (site : Site) (w : Name × Bytes) (fs : FileSystem) : Prop :=
  ∃ compress, Admits site.dst (Mover.targetName compress w.1) ∧
    fs.standing? (site.targetOf compress w.1) = some (.file (Handles.rendering compress w.2)) ∧
    fs.standing? (site.targetOf (!compress) w.1) = none

def Left (site : Site) (w : Name × Bytes) (fs : FileSystem) : Prop :=
  fs.standing? (site.sourceOf w.1) = some (.file w.2) ∧
    ∀ compress, fs.standing? (site.targetOf compress w.1) = none

variable {pattern : SegmentPattern} {x : Exporter} {site : Site} {fs gs : FileSystem}
  {s : State} {loc parent : Location} {name : Name} {v w : Name × Bytes} {c c' : Bool}
  {id : FileId} {key : StreamKey} {t : ExportTask}

theorem not_within_source (hap : site.Apart) (hin : isWithin site.dstLoc loc)
    (hne : loc ≠ site.dstLoc) : loc ≠ site.sourceOf name := by
  rintro rfl
  rcases List.suffix_cons_iff.mp (isWithin_iff.mp hin) with he | hs
  · exact hne he.symm
  · have hout := hap.src_not_within
    rw [isWithin_iff.mpr hs] at hout
    cases hout

namespace Invariant

variable (h : Invariant pattern x site fs s)
include h

/-- Different files have different targets, and so have the plain and the compressed copy. -/
theorem target_ne (hv : v ∈ s.written) (hw : w ∈ s.written) (hne : v.1 ≠ w.1 ∨ c ≠ c') :
    site.targetOf c v.1 ≠ site.targetOf c' w.1 := by
  intro he
  have hname : Mover.targetName c v.1 = Mover.targetName c' w.1 := (List.cons.inj he).1
  cases c <;> cases c'
  · exact hne.elim (fun hn => hn hname) fun hn => hn rfl
  · exact h.no_suffix v hv w hw hname
  · exact h.no_suffix w hw v hv hname.symm
  · exact hne.elim (fun hn => hn (List.append_cancel_right hname)) fun hn => hn rfl

theorem eq_of_join_eq (hv : v ∈ s.written) (hw : w ∈ s.written)
    (he : site.src.join v.1 = site.src.join w.1) : v = w :=
  List.inj_on_of_nodup_map h.names_nodup hv hw
    (Path.join_injective (h.admits v hv).toIsWord (h.admits w hw).toIsWord he)

variable (hf : Fresh pattern site fs)
include hf

theorem other_target (hw : w ∈ s.written)
    (hno : ∀ j ∈ s.jobs, j.source = site.src.join w.1 → c ≠ x.streaming.compress) :
    s.files.standing? (site.targetOf c w.1) = none := by
  rw [← hf.landed_target c, h.batch.standing_eq fun j hj v hv hs => ?_]
  refine ⟨fun he => Site.source_ne_target hf.apart _ _ _ he.symm, h.target_ne hw hv ?_⟩
  by_cases he : w.1 = v.1
  · exact Or.inr (hno j hj (he ▸ hs))
  · exact Or.inl he

/-- Once all exports have ended, a file has one complete target, or it is left. -/
theorem settled (hended : ∀ j ∈ s.jobs, j.result?.isSome) (hw : w ∈ s.written) :
    Exported site w s.files ∨ Left site w s.files := by
  by_cases hj : ∃ j ∈ s.jobs, j.source = site.src.join w.1
  · obtain ⟨j, hj, hs⟩ := hj
    obtain ⟨v, hv, hs', -, hst⟩ := h.batch.stage j hj
    obtain rfl := h.eq_of_join_eq hv hw (hs'.symm.trans hs)
    have hother : s.files.standing? (site.targetOf (!x.streaming.compress) v.1) = none :=
      h.other_target hf hw fun _ _ _ => by simp
    obtain ⟨r, hp⟩ := Job.phase_eq_ended (hended j hj)
    rw [hp] at hst
    cases r with
    | ok report => exact Or.inl ⟨_, hst.1, hst.2, hother⟩
    | error e =>
      refine Or.inr ⟨hst.1, fun c => ?_⟩
      by_cases hc : c = x.streaming.compress
      · subst hc
        exact standing?_eq_none_iff.mpr hst.2
      · exact h.other_target hf hw fun _ _ _ => hc
  · refine Or.inr ⟨?_, fun c => h.other_target hf hw fun j hm hs => absurd ⟨j, hm, hs⟩ hj⟩
    rw [← landed_source h.names_nodup hw, h.batch.standing_eq fun j hm v hv hs => ?_]
    refine ⟨fun he => ?_, Site.source_ne_target hf.apart _ _ _⟩
    exact hj ⟨j, hm, Site.source_injective he ▸ hs⟩

theorem segment_written (hin : isWithin site.srcLoc parent)
    (hn : s.files.node? (name :: parent) = some (.file id))
    (hk : pattern.key? ⟨name⟩ = some key) : parent = site.srcLoc ∧ ∃ w ∈ s.written, w.1 = name := by
  by_contra hnot
  have hno : ∀ v ∈ s.written, name :: parent ≠ site.sourceOf v.1 := by
    intro v hv he
    obtain ⟨rfl, rfl⟩ := List.cons.inj he
    exact hnot ⟨rfl, v, hv, rfl⟩
  have htarget (v : Name × Bytes) : name :: parent ≠ site.targetOf x.streaming.compress v.1 := by
    intro he
    have hout := hf.apart.dst_not_within
    rw [← (List.cons.inj he).2, hin] at hout
    cases hout
  have hst : s.files.standing? (name :: parent) = fs.standing? (name :: parent) := by
    rw [h.batch.standing_eq fun j _ v hv _ => ⟨hno v hv, htarget v⟩]
    exact landed_of_not_written fun v hv he => hno v hv he.symm
  have hfile : fs.standing? (name :: parent) = some (.file (s.files.content id)) :=
    hst ▸ standing?_eq_file_iff.mpr ⟨id, hn, rfl⟩
  obtain ⟨id', hn', -⟩ := standing?_eq_file_iff.mp hfile
  rw [hf.clean name parent id' hin hn'] at hk
  cases hk

theorem none_below : Flush.NoneBelow s.files pattern site.srcLoc := by
  intro name parent id hin hne hn
  cases hk : pattern.key? ⟨name⟩ with
  | none => rfl
  | some key => exact absurd (h.segment_written hf hin hn hk).1 hne

end Invariant

theorem isExported_iff {mover : Mover} (hon : site.On fs) (hd : mover.destination = site.dst)
    (hw : IsWord name) (hl : ∀ c t, fs.node? (site.targetOf c name) ≠ some (.link t)) :
    Flush.isExported fs mover (site.src.join name) = true ↔
      ∃ c, Admits site.dst (Mover.targetName c name) ∧
        (fs.node? (site.targetOf c name)).isSome := by
  have hpath (c : Bool) : fs.hasPath (mover.targetFor (site.src.join name) c) = true ↔
      Admits site.dst (Mover.targetName c name) ∧ (fs.node? (site.targetOf c name)).isSome := by
    rw [Mover.targetFor_join _ hw, hd]
    exact hasPath_join hon.dst (Mover.isWord_targetName hw c) (hl c)
  rw [Flush.isExported, Bool.or_eq_true, hpath, hpath, Bool.exists_bool]

theorem Exported.isExported {mover : Mover} (he : Exported site w fs) (hon : site.On fs)
    (hd : mover.destination = site.dst) (hw : IsWord w.1) :
    Flush.isExported fs mover (site.src.join w.1) = true := by
  obtain ⟨c, hadm, hst, hother⟩ := he
  obtain ⟨id, hn, -⟩ := standing?_eq_file_iff.mp hst
  refine (isExported_iff hon hd hw fun c' t hl => ?_).mpr ⟨c, hadm, by simp [hn]⟩
  by_cases hc : c' = c
  · subst hc
    rw [hn] at hl
    cases hl
  · obtain rfl : c' = !c := Bool.eq_not.mpr hc
    rw [standing?_eq_none_iff.mp hother] at hl
    cases hl

theorem Left.not_isExported {mover : Mover} (hleft : Left site w fs) (hon : site.On fs)
    (hd : mover.destination = site.dst) (hw : IsWord w.1) :
    Flush.isExported fs mover (site.src.join w.1) = false := by
  have hnone (c : Bool) : fs.node? (site.targetOf c w.1) = none :=
    standing?_eq_none_iff.mp (hleft.2 c)
  rw [Bool.eq_false_iff]
  intro he
  obtain ⟨c, -, hsome⟩ := (isExported_iff hon hd hw fun c t => by simp [hnone]).mp he
  simp [hnone] at hsome

/-- The segments that are left are pending, and nothing else is. -/
theorem Invariant.mem_pending {mover : Mover} (h : Invariant pattern x site fs s)
    (hf : Fresh pattern site fs) (hd : mover.destination = site.dst)
    (hended : ∀ j ∈ s.jobs, j.result?.isSome) :
    t ∈ (Flush.pending s.files site.src pattern mover).1 ↔ ∃ w ∈ s.written, ∃ key,
      pattern.key? (site.src.join w.1) = some key ∧ Left site w s.files ∧
        t = ⟨site.src.join w.1, key, .terminal⟩ := by
  have hon := h.batch.on
  rw [Flush.mem_pending_of_noneBelow hon.sound hon.src (h.none_below hf)]
  constructor
  · rintro ⟨name, id, key, hn, hk, he, rfl⟩
    have hword := (hon.sound.isName hn).toIsWord
    obtain ⟨-, w, hw, rfl⟩ :=
      h.segment_written hf (isWithin_self _) hn (pattern.key?_join hword ▸ hk)
    refine ⟨w, hw, key, hk, (h.settled hf hended hw).resolve_left fun hexp => ?_, rfl⟩
    rw [hexp.isExported hon hd hword] at he
    cases he
  · rintro ⟨w, hw, key, hk, hleft, rfl⟩
    obtain ⟨id, hn, -⟩ := standing?_eq_file_iff.mp hleft.1
    exact ⟨w.1, id, key, hn, hk, hleft.not_isExported hon hd (h.admits w hw).toIsWord, rfl⟩

theorem Invariant.flush_batch (h : Invariant pattern x site fs s) (hf : Fresh pattern site fs)
    (hd : x.mover.destination = site.dst) (hended : ∀ j ∈ s.jobs, j.result?.isSome)
    (began : Instant) : Batch site {} s.written s.files.standing?
      ((Flush.pending s.files site.src pattern x.mover).1.map fun t => Job.ofTask x t began)
      s.files := by
  have hpending {j : Job} (hj : j ∈ (Flush.pending s.files site.src pattern x.mover).1.map
      fun t => Job.ofTask x t began) : ∃ w ∈ s.written, ∃ key, Left site w s.files ∧
        j = Job.ofTask x ⟨site.src.join w.1, key, .terminal⟩ began := by
    obtain ⟨t, ht, rfl⟩ := List.mem_map.mp hj
    obtain ⟨w, hw, key, -, hleft, rfl⟩ := (h.mem_pending hf hd hended).mp ht
    exact ⟨w, hw, key, hleft, rfl⟩
  refine ⟨h.batch.on, fun j hj => ?_, ?_, fun j hj => ?_, fun loc _ => rfl⟩
  · obtain ⟨w, -, key, -, rfl⟩ := hpending hj
    rfl
  · rw [List.map_map]
    exact Flush.nodup_pending h.batch.on.sound h.batch.on.src
  · obtain ⟨w, hw, key, hleft, rfl⟩ := hpending hj
    exact ⟨w, hw, rfl, h.admits w hw, hleft.1, standing?_eq_none_iff.mp (hleft.2 false)⟩

end CaptureExport.Pipeline
