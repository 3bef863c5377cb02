import CaptureExport.Proofs.Export.Contest
import CaptureExport.Proofs.Flush.Scan
import CaptureExport.Proofs.Flush.Terminal

/-! # Names in a flush

The source tree has any depth, but the destination has none: segments of one name have one target,
wherever they lie. So a flush of a tree exports one segment of each name, and it reports a failure
for every other one.
-/

namespace CaptureExport.Flush

open FileSystem

/-- A segment at or below a location. The names of the directories on the way down to it are those
of its location, the deepest first. -/
structure Segment (pattern : SegmentPattern) (fs : FileSystem) (loc : Location) (dirs : List Name)
    (name : Name) (content : Bytes) : Prop where
  standing : fs.standing? (name :: (dirs ++ loc)) = some (.file content)
  isSegment : pattern.isSegment ⟨name⟩

/-- A flush that nothing keeps from exporting every segment: the watcher is gone, nothing stands in
the destination, the scan ends in time, no attempt fails, and no path is too long. -/
structure Undisturbed (st : Setting) (site : Site) (plan : Plan) (fs : FileSystem) : Prop where
  on : site.On fs
  src_eq : st.src = site.src
  dst_eq : st.exporter.mover.destination = site.dst
  empty : ∀ name, fs.node? (name :: site.dstLoc) = none
  inactive : st.active = false
  scanned : ∃ began, st.scanned = some began ∧ began < st.stop
  unhindered : ∀ a ∈ plan, Unhindered a
  short : ∀ dirs name content, Segment st.pattern fs site.srcLoc dirs name content →
    (st.src.below (name :: dirs)).bytes.length < pathLimit ∧ Admits site.dst name

def Setting.sources (st : Setting) (fs : FileSystem) : List Path :=
  (pending fs st.src st.pattern st.exporter.mover).1.map ExportTask.source

variable {st : Setting} {site : Site} {plan : Plan} {fs : FileSystem} {dirs : List Name}
  {name : Name} {content : Bytes} {p : Path} {began : Instant} {jobs : List Job}
  {stop : Duration} {done : Schedule}

theorem summarize_of_time_eq (htime : ∀ j ∈ jobs, j.time = began) (hlt : began < stop)
    (hended : ∀ j ∈ jobs, j.result?.isSome) :
    (summarize stop began jobs).timedOut = false ∧ ((summarize stop began jobs).failed = 0 ↔
      ∀ j ∈ jobs, ∃ r, j.phase = .ended (.ok r)) := by
  have htimedOut : (summarize stop began jobs).timedOut = false := by
    simpa [summarize] using fun j hj => (htime j hj ▸ hlt : j.time < stop)
  refine ⟨htimedOut, fun hfailed j hj => ?_, failed_eq_zero⟩
  obtain ⟨r, hp⟩ := Job.phase_eq_ended (hended j hj)
  cases r with
  | ok report => exact ⟨report, hp⟩
  | error e =>
    have hr : j.result? = some (.error e) := by simp [Job.result?, hp, Move.Phase.result?]
    exact absurd hr (result_ne_error hfailed htimedOut hj e)

namespace Undisturbed

variable (h : Undisturbed st site plan fs)
include h

theorem stat_src : fs.stat st.src = .ok (site.srcLoc, .directory) := h.src_eq ▸ h.on.src

section Segment

variable (hseg : Segment st.pattern fs site.srcLoc dirs name content)
include hseg

theorem isWord : ∀ n ∈ name :: dirs, IsWord n := by
  obtain ⟨id, hn, -⟩ := standing?_eq_file_iff.mp hseg.standing
  exact h.on.sound.isWord_of_mem hn

theorem nameFor_eq : Mover.nameFor (st.src.below (name :: dirs)) = name :=
  Mover.nameFor_join (h.isWord hseg name List.mem_cons_self)

theorem openRead_eq : ∃ id, fs.openRead (st.src.below (name :: dirs)) = .ok (.file id) ∧
    fs.content id = content := by
  obtain ⟨id, hn, hc⟩ := standing?_eq_file_iff.mp hseg.standing
  exact ⟨id, h.on.sound.openRead_below h.stat_src hn (h.short _ _ _ hseg).1, hc⟩

end Segment

theorem mem_pending_iff {t : ExportTask} :
    t ∈ (pending fs st.src st.pattern st.exporter.mover).1 ↔ ∃ dirs name content key,
      Segment st.pattern fs site.srcLoc dirs name content ∧ st.pattern.key? ⟨name⟩ = some key ∧
        t = ⟨st.src.below (name :: dirs), key, .terminal⟩ := by
  rw [mem_pending h.on.sound h.stat_src]
  constructor
  · rintro ⟨name, dirs, id, key, hn, -, hk, -, rfl⟩
    rw [Path.below, st.pattern.key?_join (h.on.sound.isName hn).toIsWord] at hk
    refine ⟨dirs, name, _, key, ⟨standing?_eq_file_iff.mpr ⟨id, hn, rfl⟩, ?_⟩, hk, rfl⟩
    simp [SegmentPattern.isSegment, hk]
  · rintro ⟨dirs, name, content, key, hseg, hk, rfl⟩
    obtain ⟨id, hn, -⟩ := standing?_eq_file_iff.mp hseg.standing
    have hw := (h.on.sound.isName hn).toIsWord
    refine ⟨name, dirs, id, key, hn, ?_, ?_, ?_, rfl⟩
    · exact Nat.lt_trans (Path.length_lt_join hw) (h.short _ _ _ hseg).1
    · rwa [Path.below, st.pattern.key?_join hw]
    · have hpath (c : Bool) :
          fs.hasPath (st.exporter.mover.targetFor (st.src.below (name :: dirs)) c) = false := by
        rw [Path.below, Mover.targetFor_join _ hw, h.dst_eq, Bool.eq_false_iff, ne_eq,
          hasPath_join h.on.dst (Mover.isWord_targetName hw c) (by simp [h.empty])]
        simp [h.empty]
      simp [isExported, hpath]

theorem mem_sources_iff : p ∈ st.sources fs ↔ ∃ dirs name content,
    Segment st.pattern fs site.srcLoc dirs name content ∧ p = st.src.below (name :: dirs) := by
  rw [Setting.sources, List.mem_map]
  constructor
  · rintro ⟨t, ht, rfl⟩
    obtain ⟨dirs, name, content, key, hseg, -, rfl⟩ := h.mem_pending_iff.mp ht
    exact ⟨dirs, name, content, hseg, rfl⟩
  · rintro ⟨dirs, name, content, hseg, rfl⟩
    obtain ⟨key, hk⟩ := Option.isSome_iff_exists.mp hseg.isSegment
    exact ⟨_, h.mem_pending_iff.mpr ⟨dirs, name, content, key, hseg, hk, rfl⟩, rfl⟩

/-- The names of the targets differ when those of all segments do. -/
theorem nodup_names_iff : ((st.sources fs).map Mover.nameFor).Nodup ↔
    ∀ dirs more name content other, Segment st.pattern fs site.srcLoc dirs name content →
      Segment st.pattern fs site.srcLoc more name other → dirs = more := by
  constructor
  · intro hnodup dirs more name content other hseg hseg'
    have hp := List.inj_on_of_nodup_map hnodup (h.mem_sources_iff.mpr ⟨_, _, _, hseg, rfl⟩)
      (h.mem_sources_iff.mpr ⟨_, _, _, hseg', rfl⟩)
      ((h.nameFor_eq hseg).trans (h.nameFor_eq hseg').symm)
    exact (List.cons.inj (Path.below_injective (h.isWord hseg) (h.isWord hseg') hp)).2
  · intro hdiffer
    refine List.Nodup.map_on (fun p hp q hq he => ?_) (nodup_pending h.on.sound h.stat_src)
    obtain ⟨dirs, name, content, hseg, rfl⟩ := h.mem_sources_iff.mp hp
    obtain ⟨more, other, content', hseg', rfl⟩ := h.mem_sources_iff.mp hq
    obtain rfl : name = other := by rwa [h.nameFor_eq hseg, h.nameFor_eq hseg'] at he
    rw [hdiffer dirs more name content content' hseg hseg']

theorem contest : ∃ began done, began < st.stop ∧
    Contest st.exporter.mover site.dstLoc fs began (st.sources fs) done ∧
    (∀ j ∈ done.jobs, j.result?.isSome) ∧
    (run st plan fs).summary = summarize st.stop began done.jobs ∧
    (run st plan fs).files = done.files := by
  obtain ⟨began, hscanned, hlt⟩ := h.scanned
  have hready : ∀ t ∈ (pending fs st.src st.pattern st.exporter.mover).1, t.isTerminal = true ∧
      Admits site.dst (Mover.nameFor t.source) ∧ ∃ id, fs.openRead t.source = .ok (.file id) := by
    intro t ht
    obtain ⟨dirs, name, content, key, hseg, -, rfl⟩ := h.mem_pending_iff.mp ht
    obtain ⟨id, ho, -⟩ := h.openRead_eq hseg
    exact ⟨rfl, (h.nameFor_eq hseg).symm ▸ (h.short _ _ _ hseg).2, id, ho⟩
  obtain ⟨hc, hended⟩ := @Contest.runAll site.dst site.dstLoc fs began st.exporter _ plan
    (some st.stop) h.on.sound h.dst_eq h.on.dst h.empty h.unhindered (fun t ht => (hready t ht).1)
    (fun t ht => (hready t ht).2.1) fun t ht => (hready t ht).2.2
  refine ⟨began, _, hlt, hc, hended, ?_⟩
  unfold run
  simp [hscanned, Nat.not_le.mpr hlt, h.inactive]

section Contest

variable (hc : Contest st.exporter.mover site.dstLoc fs began (st.sources fs) done)
  (hended : ∀ j ∈ done.jobs, j.result?.isSome)
include hc

theorem segment_of_mem {j : Job} (hj : j ∈ done.jobs) : ∃ dirs content,
    Segment st.pattern fs site.srcLoc dirs j.name content ∧
      fs.readFile j.source = .ok content := by
  have hs : j.source ∈ st.sources fs := hc.sources_eq ▸ List.mem_map_of_mem hj
  obtain ⟨dirs, name, content, hseg, hp⟩ := h.mem_sources_iff.mp hs
  obtain ⟨id, ho, rfl⟩ := h.openRead_eq hseg
  have hname : j.name = name := by rw [Job.name, hp, h.nameFor_eq hseg]
  exact ⟨dirs, _, hname ▸ hseg, hp ▸ readFile_of_openRead ho⟩

include hended

theorem segment_exported (hseg : Segment st.pattern fs site.srcLoc dirs name content) :
    ∃ more other, Segment st.pattern fs site.srcLoc more name other ∧
      done.files.standing? (name :: site.dstLoc) = some (.file other) := by
  have hs := h.mem_sources_iff.mpr ⟨_, _, _, hseg, rfl⟩
  rw [← hc.sources_eq] at hs
  obtain ⟨j, hj, hp⟩ := List.mem_map.mp hs
  have hname : j.name = name := by rw [Job.name, hp, h.nameFor_eq hseg]
  obtain ⟨k, hk, hkj, other, hread, hst⟩ := hc.winner hended h.empty hj
  obtain ⟨more, other', hseg', hread'⟩ := h.segment_of_mem hc hk
  obtain rfl : other = other' := Except.ok.inj (hread.symm.trans hread')
  exact ⟨more, other, (hkj.trans hname) ▸ hseg', hname ▸ hst⟩

/-- Whatever lies in the tree afterwards is taken for exported. -/
theorem pending_eq_nil : (pending done.files st.src st.pattern st.exporter.mover).1 = [] := by
  refine List.eq_nil_iff_forall_not_mem.mpr fun t ht => ?_
  rw [mem_pending hc.sound (hc.narrows.stat_directory h.stat_src)] at ht
  obtain ⟨name, dirs, id, key, hn, -, hk, hx, -⟩ := ht
  have hw := (hc.sound.isName hn).toIsWord
  rw [Path.below, st.pattern.key?_join hw] at hk
  obtain ⟨hadm, other, hst⟩ : Admits site.dst name ∧
      ∃ other, done.files.standing? (name :: site.dstLoc) = some (.file other) := by
    -- the destination may lie in the source, so a copy may be what the second scan finds
    by_cases hold : fs.node? (name :: (dirs ++ site.srcLoc)) = none
    · obtain ⟨j, hj, hl, hh⟩ := hc.owned _ hold (by simp [hn])
      obtain rfl : name = j.name := (List.cons.inj hl).1
      obtain ⟨dirs', content, hseg, -⟩ := h.segment_of_mem hc hj
      obtain ⟨other, -, hst⟩ := hc.standing_of_holds hended hj hh
      exact ⟨(h.short _ _ _ hseg).2, other, hst⟩
    · have hn' := (hc.kept _ hold).1.symm.trans hn
      have hseg : Segment st.pattern fs site.srcLoc dirs name (fs.content id) :=
        ⟨standing?_eq_file_iff.mpr ⟨id, hn', rfl⟩, by simp [SegmentPattern.isSegment, hk]⟩
      obtain ⟨-, other, -, hst⟩ := h.segment_exported hc hended hseg
      exact ⟨(h.short _ _ _ hseg).2, other, hst⟩
  obtain ⟨i, hi, -⟩ := standing?_eq_file_iff.mp hst
  have hpath : done.files.hasPath
      (st.exporter.mover.targetFor (st.src.below (name :: dirs)) false) = true := by
    rw [Path.below, Mover.targetFor_join _ hw, h.dst_eq]
    exact (hasPath_join (hc.narrows.stat_directory h.on.dst) hw (by simp [hi])).mpr
      ⟨hadm, by simp [hi]⟩
  simp [isExported, hpath] at hx

end Contest
end Undisturbed

/-- A flush of a tree into an empty destination copies one segment of each name. It reports no
failure exactly when no two segments of the tree have one name. -/
theorem exports_names (h : Undisturbed st site plan fs) :
    (run st plan fs).summary.timedOut = false ∧
      (∀ dirs name content, Segment st.pattern fs site.srcLoc dirs name content →
        ∃ more other, Segment st.pattern fs site.srcLoc more name other ∧
          (run st plan fs).files.standing? (name :: site.dstLoc) = some (.file other)) ∧
      ((run st plan fs).summary.failed = 0 ↔ ∀ dirs more name content other,
        Segment st.pattern fs site.srcLoc dirs name content →
        Segment st.pattern fs site.srcLoc more name other → dirs = more) ∧
      (pending (run st plan fs).files st.src st.pattern st.exporter.mover).1 = [] := by
  obtain ⟨began, done, hlt, hc, hended, hsummary, hfiles⟩ := h.contest
  obtain ⟨htime, hfailed⟩ := summarize_of_time_eq hc.time_eq hlt hended
  have hnames : done.jobs.map Job.name = (st.sources fs).map Mover.nameFor := by
    rw [← hc.sources_eq, List.map_map]
    rfl
  rw [hsummary, hfiles]
  refine ⟨htime, fun dirs name content hseg => h.segment_exported hc hended hseg, ?_,
    h.pending_eq_nil hc hended⟩
  rw [hfailed, hc.all_succeed_iff hended h.empty, hnames, h.nodup_names_iff]

/-! ### One name in two directories -/

def nestedSite : Site := ⟨⟨[47, 115]⟩, ⟨[47, 100]⟩, [[115]], [[100]]⟩

def nestedSetting : Setting where
  src := nestedSite.src
  pattern := ⟨[]⟩
  exporter := ⟨{ destination := nestedSite.dst }, {}⟩
  active := false

def nestedName : Name :=
  [112, 97, 114, 116, 95, 95, 48, 95, 101, 95, 95] ++ List.replicate 8 48 ++
    84 :: List.replicate 6 48 ++ [46]

def nestedFiles : FileSystem :=
  ⟨[([[115]], .directory), ([[100]], .directory), ([[97], [115]], .directory),
    ([[98], [115]], .directory), ([nestedName, [97], [115]], .file 0),
    ([nestedName, [98], [115]], .file 1)], [[1], [2]], []⟩

theorem nestedFiles_undisturbed : Undisturbed nestedSetting nestedSite [] nestedFiles := by
  have hs : nestedFiles.Sound := by decide
  refine ⟨⟨hs, by decide, by decide⟩, rfl, rfl, fun name => ?_, rfl, ⟨0, rfl, by decide⟩, by simp,
    fun dirs name content hseg => ?_⟩
  · cases hn : nestedFiles.node? (name :: nestedSite.dstLoc) with
    | none => rfl
    | some node =>
      have hm := hs.mem_iff.mpr ⟨List.cons_ne_nil _ _, hn⟩
      simp [nestedFiles, nestedSite] at hm
  · obtain ⟨id, hn, -⟩ := standing?_eq_file_iff.mp hseg.standing
    have hm := hs.mem_iff.mpr ⟨List.cons_ne_nil _ _, hn⟩
    simp only [nestedFiles, nestedSite, List.mem_cons, List.not_mem_nil, or_false, Prod.mk.injEq,
      reduceCtorEq, and_false, false_or, List.cons.injEq] at hm
    have hdir {d : Name} (hd : dirs ++ [[115]] = [d] ++ [[115]]) : dirs = [d] :=
      List.append_cancel_right hd
    rcases hm with ⟨⟨rfl, hd⟩, -⟩ | ⟨⟨rfl, hd⟩, -⟩
    all_goals
      obtain rfl := hdir hd
      exact ⟨by decide, ⟨by decide, by decide⟩⟩

/-- One of the segments is exported, the other one fails, and no scan finds it any more. -/
theorem exports_names_of_nestedFiles :
    Segment nestedSetting.pattern nestedFiles nestedSite.srcLoc [[97]] nestedName [1] ∧
      Segment nestedSetting.pattern nestedFiles nestedSite.srcLoc [[98]] nestedName [2] ∧
      (run nestedSetting [] nestedFiles).summary.timedOut = false ∧
      (run nestedSetting [] nestedFiles).summary.failed ≠ 0 ∧
      (∃ content ∈ [[1], [2]], (run nestedSetting [] nestedFiles).files.standing?
        (nestedName :: nestedSite.dstLoc) ≠ some (.file content)) ∧
      (pending (run nestedSetting [] nestedFiles).files nestedSetting.src nestedSetting.pattern
        nestedSetting.exporter.mover).1 = [] := by
  have hfirst : Segment nestedSetting.pattern nestedFiles nestedSite.srcLoc [[97]] nestedName [1] :=
    ⟨by decide, by decide⟩
  have hsecond : Segment nestedSetting.pattern nestedFiles nestedSite.srcLoc [[98]] nestedName
    [2] := ⟨by decide, by decide⟩
  obtain ⟨htime, -, hfailed, hpending⟩ := exports_names nestedFiles_undisturbed
  refine ⟨hfirst, hsecond, htime, fun hzero => ?_, ?_, hpending⟩
  · exact absurd (hfailed.mp hzero _ _ _ _ _ hfirst hsecond) (by decide)
  · by_contra hnone
    have hall (content : Bytes) (hm : content ∈ [[1], [2]]) :
        (run nestedSetting [] nestedFiles).files.standing? (nestedName :: nestedSite.dstLoc) =
          some (.file content) := by_contra fun hne => hnone ⟨content, hm, hne⟩
    exact absurd ((hall [1] (by simp)).symm.trans (hall [2] (by simp))) (by decide)

end CaptureExport.Flush
