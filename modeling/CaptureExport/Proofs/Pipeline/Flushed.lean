import CaptureExport.Proofs.Flush.Terminal
import CaptureExport.Proofs.Gzip.RoundTrip
import CaptureExport.Proofs.Pipeline.Settled

/-! # The pipeline with a flush at its end

The flush copies the segments that the exports have left behind and leaves the targets of the others
alone. So each segment has one complete target in the end.
-/

namespace CaptureExport.Pipeline

open FileSystem

variable {pattern : SegmentPattern} {x : Exporter} {site : Site} {fs gs : FileSystem}
  {s : State} {jobs : List Job} {loc : Location} {w : Name × Bytes} {c : Bool} {key : StreamKey}

structure Flushed (pattern : SegmentPattern) (site : Site) (s : State) (jobs : List Job)
    (fs : FileSystem) : Prop where
  batch : Batch site {} s.written s.files.standing? jobs fs
  succeeded : ∀ j ∈ jobs, ∃ r, j.phase = .ended (.ok r)
  exports : ∀ w ∈ s.written, site.src.join w.1 ∈ jobs.map Job.source ↔
    (∃ key, pattern.key? (site.src.join w.1) = some key) ∧ Left site w s.files

namespace Flushed

variable (hfl : Flushed pattern site s jobs gs) (h : Invariant pattern x site fs s)
  (hf : Fresh pattern site fs)
include hfl h hf

theorem standing_target (hw : w ∈ s.written) (hno : Left site w s.files → c = true) :
    gs.standing? (site.targetOf c w.1) = s.files.standing? (site.targetOf c w.1) := by
  refine hfl.batch.standing_eq fun j hj v hv hs => ?_
  refine ⟨fun he => Site.source_ne_target hf.apart _ _ _ he.symm, h.target_ne hw hv ?_⟩
  by_cases he : w.1 = v.1
  · have hvw : v = w := List.inj_on_of_nodup_map h.names_nodup hv hw he.symm
    have hleft := ((hfl.exports v hv).mp (hs ▸ List.mem_map_of_mem hj)).2
    exact Or.inr (by simp [hno (hvw ▸ hleft)])
  · exact Or.inl he

/-- Every segment has one complete target after the flush. -/
theorem segment_exported (hended : ∀ j ∈ s.jobs, j.result?.isSome) (hw : w ∈ s.written)
    (hk : pattern.key? (site.src.join w.1) = some key) : Exported site w gs := by
  rcases h.settled hf hended hw with hexp | hleft
  · obtain ⟨c, hadm, hst, hother⟩ := hexp
    have hno (c' : Bool) : Left site w s.files → c' = true := by
      intro hleft
      rw [hleft.2 c] at hst
      cases hst
    refine ⟨c, hadm, ?_, ?_⟩
    · rw [hfl.standing_target h hf hw (hno _), hst]
    · rw [hfl.standing_target h hf hw (hno _), hother]
  · have hm := (hfl.exports w hw).mpr ⟨⟨key, hk⟩, hleft⟩
    obtain ⟨j, hj, hs⟩ := List.mem_map.mp hm
    obtain ⟨v, hv, hs', -, hst⟩ := hfl.batch.stage j hj
    obtain rfl := h.eq_of_join_eq hv hw (hs'.symm.trans hs)
    obtain ⟨r, hr⟩ := hfl.succeeded j hj
    rw [hr] at hst
    exact ⟨false, hst.1, hst.2,
      (hfl.standing_target h hf hw fun _ => rfl).trans (hleft.2 true)⟩

theorem only_targets (hin : isWithin site.dstLoc loc) (hne : loc ≠ site.dstLoc)
    (hsome : gs.node? loc ≠ none) : ∃ w ∈ s.written, ∃ key c,
      pattern.key? (site.src.join w.1) = some key ∧ loc = site.targetOf c w.1 := by
  by_contra hnot
  have hno {v : Name × Bytes} (hv : v ∈ s.written) {p : Path} (hs : p = site.src.join v.1)
      (hk : ∃ key, pattern.key? p = some key) (c : Bool) :
      loc ≠ site.sourceOf v.1 ∧ loc ≠ site.targetOf c v.1 := by
    subst hs
    obtain ⟨key, hk⟩ := hk
    exact ⟨not_within_source hf.apart hin hne, fun he => hnot ⟨v, hv, key, c, hk, he⟩⟩
  refine hsome (standing?_eq_none_iff.mp ?_)
  calc gs.standing? loc = s.files.standing? loc := by
        refine hfl.batch.standing_eq fun j hj v hv hs => hno hv rfl ?_ _
        exact ((hfl.exports v hv).mp (hs ▸ List.mem_map_of_mem hj)).1
    _ = landed site fs s.written loc :=
        h.batch.standing_eq fun j hj v hv hs => hno hv hs (h.segment hj) _
    _ = fs.standing? loc :=
        landed_of_not_written fun w _ he => not_within_source hf.apart hin hne he.symm
    _ = none := standing?_eq_none_iff.mpr (hf.empty loc hin hne)

end Flushed

/-- Nothing outside a flush makes one of its copies fail: no attempt does, and no target has a path
that is too long. -/
structure Unobstructed (st : Flush.Setting) (plan : Plan) (fs : FileSystem) : Prop where
  attempts : ∀ a ∈ plan, Flush.Unhindered a
  targets : ∀ t ∈ (Flush.pending fs st.src st.pattern st.exporter.mover).1,
    (st.exporter.mover.targetFor t.source false).bytes.length < pathLimit

variable {st : Flush.Setting} {plan : Plan}

theorem Invariant.flushed (h : Invariant st.pattern st.exporter site fs s)
    (hf : Fresh st.pattern site fs) (hsrc : st.src = site.src)
    (hdst : st.exporter.mover.destination = site.dst)
    (hended : ∀ j ∈ s.jobs, j.result?.isSome) (hactive : st.active = false)
    (hu : Unobstructed st plan s.files)
    (htime : (Flush.run st plan s.files).summary.timedOut = false) :
    (Flush.run st plan s.files).summary.failed = 0 ∧
      ∃ jobs, Flushed st.pattern site s jobs (Flush.run st plan s.files).files := by
  obtain ⟨began, done, hdone, hsum, hfiles⟩ := Flush.run_of_not_timedOut htime
  have hlen := hu.targets
  rw [hsrc] at hdone hlen
  rw [hactive] at hdone
  have hadm : ∀ w ∈ s.written, site.src.join w.1 ∈
      (Flush.pending s.files site.src st.pattern st.exporter.mover).1.map ExportTask.source →
        Admits site.dst w.1 := by
    intro w hw hm
    obtain ⟨t, ht, hs⟩ := List.mem_map.mp hm
    have hn := (h.admits w hw).toIsName
    have hshort := hlen t ht
    rw [hs, Mover.targetFor_join _ hn.toIsWord, hdst] at hshort
    exact ⟨hn, hshort⟩
  obtain ⟨hc, hok⟩ := Flush.runAll_copies hf.apart hdst hadm hu.attempts
    (h.flush_batch hf hdst hended began)
  rw [← hdone] at hc hok
  refine ⟨hsum ▸ Flush.failed_eq_zero hok, done.jobs, hfiles ▸ hc.batch, hok, fun w hw => ?_⟩
  rw [hc.sources_eq]
  constructor
  · intro hm
    obtain ⟨t, ht, hs⟩ := List.mem_map.mp hm
    obtain ⟨v, hv, key, hk, hleft, rfl⟩ := (h.mem_pending hf hdst hended).mp ht
    obtain rfl := h.eq_of_join_eq hv hw hs
    exact ⟨⟨key, hk⟩, hleft⟩
  · rintro ⟨⟨key, hk⟩, hleft⟩
    exact List.mem_map.mpr ⟨_, (h.mem_pending hf hdst hended).mpr ⟨w, hw, key, hk, hleft, rfl⟩, rfl⟩

/-- When the destination is empty at the start and no segment lies at or below the source directory
(`Fresh.clean`), the content of every segment that was ever written is in the destination once, and
nothing else, after all exports and a flush in which no copy fails. -/
theorem exported_once (hf : Fresh st.pattern site fs) (hsrc : st.src = site.src)
    (hdst : st.exporter.mover.destination = site.dst)
    (h : Reached st.pattern st.exporter st.src fs s) (hended : ∀ j ∈ s.jobs, j.result?.isSome)
    (hactive : st.active = false) (hu : Unobstructed st plan s.files)
    (htime : (Flush.run st plan s.files).summary.timedOut = false) :
    let gs := (Flush.run st plan s.files).files
    (Flush.run st plan s.files).summary.failed = 0 ∧
      gs.stat site.dst = .ok (site.dstLoc, .directory) ∧
      (∀ name content, (name, content) ∈ s.written → st.pattern.isSegment (st.src.join name) →
        (gs.standing? (name :: site.dstLoc) = some (.file content) ∧
            gs.standing? ((name ++ Mover.gzipSuffix) :: site.dstLoc) = none) ∨
          (gs.standing? (name :: site.dstLoc) = none ∧
            ∃ octets, Gzip.decode? octets = some content ∧
              gs.standing? ((name ++ Mover.gzipSuffix) :: site.dstLoc) = some (.file octets))) ∧
      ∀ loc, isWithin site.dstLoc loc → loc ≠ site.dstLoc → gs.standing? loc ≠ none →
        ∃ name content, (name, content) ∈ s.written ∧
          st.pattern.isSegment (st.src.join name) ∧
            (loc = name :: site.dstLoc ∨ loc = (name ++ Mover.gzipSuffix) :: site.dstLoc) := by
  rw [hsrc] at h ⊢
  have hi := h.invariant hf hdst
  obtain ⟨hfailed, jobs, hfl⟩ := hi.flushed hf hsrc hdst hended hactive hu htime
  refine ⟨hfailed, hfl.batch.on.dst, fun name content hw hseg => ?_, fun loc hin hne hsome => ?_⟩
  · obtain ⟨key, hk⟩ := Option.isSome_iff_exists.mp hseg
    obtain ⟨c, -, hst, hother⟩ := hfl.segment_exported hi hf hended hw hk
    cases c with
    | false => exact Or.inl ⟨hst, hother⟩
    | true => exact Or.inr ⟨hother, _, Gzip.decode?_encode content, hst⟩
  · have hnode := fun hn => hsome (standing?_eq_none_iff.mpr hn)
    obtain ⟨⟨name, content⟩, hw, key, c, hk, rfl⟩ := hfl.only_targets hi hf hin hne hnode
    refine ⟨name, content, hw, by simp [SegmentPattern.isSegment, hk], ?_⟩
    cases c with
    | false => exact Or.inl rfl
    | true => exact Or.inr rfl

/-! ### Two segments -/

def twoSite : Site := ⟨⟨[47, 115]⟩, ⟨[47, 100]⟩, [[115]], [[100]]⟩

def twoDirectories : FileSystem := ⟨[([[115]], .directory), ([[100]], .directory)], [], []⟩

def twoSetting : Flush.Setting where
  src := twoSite.src
  pattern := ⟨[]⟩
  exporter := ⟨{ destination := twoSite.dst }, { compress := true, deleteOnSuccess := true }⟩
  active := false

def segmentAt (digit : UInt8) : Name :=
  [112, 97, 114, 116, 95, 95, 48, 95, 101, 95, 95] ++ List.replicate 8 48 ++
    84 :: List.replicate 5 48 ++ [digit, 46]

def twoFiles : FileSystem :=
  ⟨[([[115]], .directory), ([[100]], .directory), ([segmentAt 49, [115]], .file 1),
    ([segmentAt 48 ++ Mover.gzipSuffix, [100]], .file 2)], [[1, 2], [3], Gzip.encode [1, 2]], []⟩

theorem twoDirectories_fresh : Fresh twoSetting.pattern twoSite twoDirectories := by
  have hs : twoDirectories.Sound := by decide
  refine ⟨⟨hs, by decide, by decide⟩, ⟨by decide, by decide⟩, fun loc hin hne => ?_,
    fun name parent id _ hn => ?_⟩
  · cases hn : twoDirectories.node? loc with
    | none => rfl
    | some node =>
      have hroot : loc ≠ [] := by
        rintro rfl
        exact absurd hin (by decide)
      have hm := hs.mem_iff.mpr ⟨hroot, hn⟩
      simp only [twoDirectories, List.mem_cons, List.not_mem_nil, or_false, Prod.mk.injEq] at hm
      rcases hm with ⟨rfl, -⟩ | ⟨rfl, -⟩
      · exact absurd hin (by decide)
      · exact absurd rfl hne
  · have hm := hs.mem_iff.mpr ⟨List.cons_ne_nil _ _, hn⟩
    simp [twoDirectories] at hm

theorem pending_twoFiles : (Flush.pending twoFiles twoSetting.src twoSetting.pattern
    twoSetting.exporter.mover).1 =
      [⟨twoSite.src.join (segmentAt 49), ⟨0, "e", ""⟩, .terminal⟩] := by
  have hs : twoFiles.Sound := by decide
  have hd : twoFiles.stat twoSetting.src = .ok (twoSite.srcLoc, .directory) := by decide
  refine List.perm_singleton.mp ((List.perm_ext_iff_of_nodup
    (.of_map _ (Flush.nodup_pending hs hd)) (List.nodup_singleton _)).mpr fun t => ?_)
  rw [Flush.mem_pending hs hd, List.mem_singleton]
  constructor
  · rintro ⟨name, names, id, key, hn, -, hk, -, rfl⟩
    have hm := hs.mem_iff.mpr ⟨List.cons_ne_nil _ _, hn⟩
    simp only [twoFiles, twoSite, List.mem_cons, List.not_mem_nil, or_false, Prod.mk.injEq,
      reduceCtorEq, and_false, false_or, List.cons.injEq] at hm
    rcases hm with ⟨⟨rfl, hdir⟩, -⟩ | ⟨⟨-, hdir⟩, -⟩
    · obtain rfl : names = [] := by simpa using hdir
      have hkey : twoSetting.pattern.key? (twoSetting.src.below [segmentAt 49]) =
        some ⟨0, "e", ""⟩ := by decide
      obtain rfl := Option.some.inj (hk.symm.trans hkey)
      rfl
    · have hlast := congrArg List.getLast? hdir
      simp at hlast
  · rintro rfl
    exact ⟨segmentAt 49, [], 1, _, by decide, by decide, by decide, by decide, rfl⟩

theorem run_twoFiles : (Flush.run twoSetting [] twoFiles).summary.timedOut = false ∧
    (Flush.run twoSetting [] twoFiles).files.standing? [segmentAt 48, [100]] = none ∧
    (Flush.run twoSetting [] twoFiles).files.standing? [segmentAt 49 ++ Mover.gzipSuffix, [100]] =
      none := by
  have hrun : (Flush.run twoSetting [] twoFiles).summary = Flush.summarize twoSetting.stop 0
      (twoSetting.exporter.runAll false (Flush.pending twoFiles twoSetting.src twoSetting.pattern
        twoSetting.exporter.mover).1 0 [] (some twoSetting.stop) twoFiles).jobs ∧
      (Flush.run twoSetting [] twoFiles).files = (twoSetting.exporter.runAll false
        (Flush.pending twoFiles twoSetting.src twoSetting.pattern twoSetting.exporter.mover).1 0 []
          (some twoSetting.stop) twoFiles).files := ⟨rfl, rfl⟩
  rw [hrun.1, hrun.2, pending_twoFiles]
  decide +kernel

/-- The older segment is exported when the newer one appears, and the flush copies the newer one. -/
theorem exported_once_of_twoFiles : ∃ s : State,
    Reached twoSetting.pattern twoSetting.exporter twoSetting.src twoDirectories s ∧
      s.written = [(segmentAt 48, [1, 2]), (segmentAt 49, [3])] ∧
      (Flush.run twoSetting [] s.files).summary.failed = 0 ∧
      (∃ octets, Gzip.decode? octets = some [1, 2] ∧
        (Flush.run twoSetting [] s.files).files.standing?
          [segmentAt 48 ++ Mover.gzipSuffix, [100]] = some (.file octets)) ∧
      (Flush.run twoSetting [] s.files).files.standing? [segmentAt 49, [100]] =
        some (.file [3]) := by
  obtain ⟨s, hr, hfiles, hwritten, hended⟩ : ∃ s : State,
      Reached twoSetting.pattern twoSetting.exporter twoSetting.src twoDirectories s ∧
        s.files = twoFiles ∧ s.written = [(segmentAt 48, [1, 2]), (segmentAt 49, [3])] ∧
        ∀ j ∈ s.jobs, j.result?.isSome := by
    have h₀ : Reached twoSetting.pattern twoSetting.exporter twoSetting.src twoDirectories _ :=
      .start
    have h₁ := h₀.step (.writes (segmentAt 48) [1, 2] (by decide) (by simp [IsNew]) rfl)
    have h₂ := h₁.step (.dispatches (segmentAt 48) 0 (by decide) (by decide))
    have h₃ := h₂.step (.writes (segmentAt 49) [3] (by decide) (by unfold IsNew; decide) rfl)
    have h₄ := h₃.step (.dispatches (segmentAt 49) 0 (by decide) (by decide))
    have h₅ := h₄.step (.exports (i := 0) {} false 0 rfl rfl)
    have h₆ := h₅.step (.exports (i := 0) {} false 0 rfl rfl)
    have h₇ := h₆.step (.exports (i := 0) {} false 0 rfl rfl)
    have h₈ := h₇.step (.exports (i := 0) {} false 0 rfl rfl)
    exact ⟨_, h₈, by decide +kernel, rfl, by decide⟩
  obtain ⟨htime, hplain, hcompressed⟩ := run_twoFiles
  have hu : Unobstructed twoSetting [] s.files := by
    refine ⟨by simp, fun t ht => ?_⟩
    rw [hfiles, pending_twoFiles] at ht
    obtain rfl := List.mem_singleton.mp ht
    decide
  obtain ⟨hfailed, -, hsegments, -⟩ := exported_once twoDirectories_fresh rfl rfl hr hended rfl hu
    (hfiles ▸ htime)
  have holder := hsegments (segmentAt 48) [1, 2] (by simp [hwritten]) (by decide)
  have hnewer := hsegments (segmentAt 49) [3] (by simp [hwritten]) (by decide)
  rw [hfiles] at holder hnewer hfailed
  refine ⟨s, hr, hwritten, ?_⟩
  rw [hfiles]
  refine ⟨hfailed, ?_, ?_⟩
  · rcases holder with ⟨hn, -⟩ | ⟨-, octets, hdecode, hst⟩
    · exact absurd (hplain.symm.trans hn) (by simp)
    · exact ⟨octets, hdecode, hst⟩
  · rcases hnewer with ⟨hst, -⟩ | ⟨-, octets, -, hst⟩
    · exact hst
    · exact absurd (hcompressed.symm.trans hst) (by simp)

end CaptureExport.Pipeline
