import Mathlib.Data.List.Basic
import Mathlib.Data.List.Induction
import CaptureExport.Proofs.Rotation.Tracker
import CaptureExport.Rotation.Dispatch

/-! # Pairing of sequential dispatches

Dispatched one after another, the segments of a stream are paired with their predecessors: the
first one is recorded, and every later one exports the one before it. What happens to a stream
does not depend on the paths of other streams in between.
-/

namespace CaptureExport

theorem SegmentPattern.bytes_ne_nil_of_key? {pattern : SegmentPattern} {p : Path}
    {key : StreamKey} (h : pattern.key? p = some key) : p.bytes ≠ [] := by
  intro hp
  obtain rfl : p = ⟨[]⟩ := congrArg Path.mk hp
  exact absurd h (by simp [key?, Path.fileName?, Path.components, Path.isAbsolute, Path.fields,
    Text.splitAt])

namespace Dispatch

def segmentsOf (pattern : SegmentPattern) (key : StreamKey) (paths : List Path) : List Path :=
  paths.filter fun p => pattern.key? p = some key

def resultsOf (pattern : SegmentPattern) (key : StreamKey) (paths : List Path)
    (results : List Dispatch) : List Dispatch :=
  ((paths.zip results).filter fun e => pattern.key? e.1 = some key).map Prod.snd

def tasksOf (key : StreamKey) (tasks : List ExportTask) : List ExportTask :=
  tasks.filter fun t => t.key = key

/-- The results for the segments of a stream, each paired with its predecessor. -/
def pairedResults : List Path → List Dispatch
  | [] => []
  | p :: ps => .recorded :: (p :: ps).dropLast.map fun previous => .exporting previous false

/-- The tasks for the segments of a stream: all but the last are exported, from iteration 2 on. -/
def pairedTasks (key : StreamKey) (segments : List Path) : List ExportTask :=
  segments.dropLast.mapIdx fun i p => ⟨p, key, .streaming (i + 2)⟩

variable {pattern : SegmentPattern} {key : StreamKey} {p : Path} {paths : List Path}
  {results : List Dispatch} {tracker : Tracker} {tasks : List ExportTask}

theorem pairedResults_of_concat (front : List Path) (q : Path) : pairedResults (front ++ [q]) =
    .recorded :: front.map fun previous => .exporting previous false := by
  have hd : (front ++ [q]).dropLast = front := List.dropLast_concat
  cases front with
  | nil => rfl
  | cons a l =>
    rw [List.cons_append] at hd ⊢
    rw [pairedResults, hd]

theorem pairedResults_concat (segments : List Path) (p : Path) :
    pairedResults (segments ++ [p]) = pairedResults segments ++
      [match segments.getLast? with
        | none => .recorded
        | some previous => .exporting previous false] := by
  rcases segments.eq_nil_or_concat' with rfl | ⟨front, q, rfl⟩
  · rfl
  · rw [pairedResults_of_concat, pairedResults_of_concat]
    simp

theorem pairedTasks_concat (segments : List Path) (p : Path) :
    pairedTasks key (segments ++ [p]) = pairedTasks key segments ++
      (segments.getLast?.map fun previous =>
        (⟨previous, key, .streaming (segments.length + 1)⟩ : ExportTask)).toList := by
  rcases segments.eq_nil_or_concat' with rfl | ⟨front, q, rfl⟩
  · rfl
  · simp [pairedTasks, List.mapIdx_append]

theorem alone_of_not_segment (h : pattern.key? p = none) (tracker : Tracker) :
    alone pattern p tracker = ⟨.ignored, tracker, none, []⟩ := by
  simp [alone, run, h]

theorem alone_of_segment (h : pattern.key? p = some key) {segments : List Path}
    (hslot : tracker.slot key = ⟨segments.length, segments.getLast?⟩)
    (hne : ∀ q ∈ segments, q.bytes ≠ []) :
    (alone pattern p tracker).dispatch =
        (match segments.getLast? with
          | none => .recorded
          | some previous => .exporting previous false) ∧
      (alone pattern p tracker).task = segments.getLast?.map
        (fun previous => ⟨previous, key, .streaming (segments.length + 1)⟩) ∧
      (alone pattern p tracker).tracker.slot key = ⟨segments.length + 1, some p⟩ ∧
      ∀ other, other ≠ key →
        (alone pattern p tracker).tracker.slot other = tracker.slot other := by
  rcases segments.eq_nil_or_concat' with rfl | ⟨front, q, rfl⟩
  · have hc : (tracker.slot key).count = 0 := by rw [hslot]; rfl
    simp only [alone, run, h, Tracker.observe_first hc, id]
    exact ⟨rfl, rfl, Tracker.slot_set_self, fun other ho => Tracker.slot_set_of_ne ho⟩
  · have hc : (tracker.slot key).count ≠ 0 := by rw [hslot]; simp
    have ha : (tracker.slot key).active = some q := by rw [hslot]; simp
    have hn : (tracker.slot key).count = (front ++ [q]).length := by rw [hslot]
    simp only [alone, run, h, Tracker.observe_superseded hc ha (hne q (by simp)), id, hn,
      List.getLast?_concat, Option.map_some]
    have hlast : ((tracker.set key ⟨(front ++ [q]).length + 1, some q⟩).slot key).active =
        some q := by simp
    have hexpected : ((tracker.set key ⟨(front ++ [q]).length + 1, some q⟩).advance key q p).1
        = true := by
      rw [Tracker.advance_fst hlast]
      exact q.alike_refl
    refine ⟨by rw [hexpected]; rfl, trivial, ?_, fun other ho => ?_⟩
    · rw [Tracker.slot_advance_self, Tracker.slot_set_self]
    · rw [Tracker.slot_advance_of_ne ho, Tracker.slot_set_of_ne ho]

/-- What results, a tracker and tasks are after paths have been dispatched in order. -/
structure Paired (pattern : SegmentPattern) (paths : List Path) (results : List Dispatch)
    (tracker : Tracker) (tasks : List ExportTask) : Prop where
  length_eq : results.length = paths.length
  results_eq : ∀ key,
    resultsOf pattern key paths results = pairedResults (segmentsOf pattern key paths)
  tasks_eq : ∀ key, tasksOf key tasks = pairedTasks key (segmentsOf pattern key paths)
  slot_eq : ∀ key, tracker.slot key =
    ⟨(segmentsOf pattern key paths).length, (segmentsOf pattern key paths).getLast?⟩
  ignored : ∀ e ∈ paths.zip results, pattern.key? e.1 = none → e.2 = .ignored

theorem segmentsOf_concat (paths : List Path) (p : Path) : segmentsOf pattern key (paths ++ [p]) =
    if pattern.key? p = some key then segmentsOf pattern key paths ++ [p]
    else segmentsOf pattern key paths := by
  by_cases h : pattern.key? p = some key <;> simp [segmentsOf, List.filter_append, h]

theorem resultsOf_concat (hl : results.length = paths.length) (d : Dispatch) :
    resultsOf pattern key (paths ++ [p]) (results ++ [d]) =
      if pattern.key? p = some key then resultsOf pattern key paths results ++ [d]
      else resultsOf pattern key paths results := by
  by_cases h : pattern.key? p = some key <;>
    simp [resultsOf, List.zip_append hl.symm, List.filter_append, h]

theorem tasksOf_append (more : List ExportTask) :
    tasksOf key (tasks ++ more) = tasksOf key tasks ++ tasksOf key more :=
  List.filter_append ..

theorem Paired.concat_not_segment (hp : Paired pattern paths results tracker tasks)
    (h : pattern.key? p = none) :
    Paired pattern (paths ++ [p]) (results ++ [.ignored]) tracker tasks := by
  have hk (key : StreamKey) : ¬ pattern.key? p = some key := by simp [h]
  refine ⟨by simp [hp.length_eq], fun key => ?_, fun key => ?_, fun key => ?_, fun e he => ?_⟩
  · rw [resultsOf_concat hp.length_eq, segmentsOf_concat, if_neg (hk key), if_neg (hk key)]
    exact hp.results_eq key
  · rw [segmentsOf_concat, if_neg (hk key)]
    exact hp.tasks_eq key
  · rw [segmentsOf_concat, if_neg (hk key)]
    exact hp.slot_eq key
  · rw [List.zip_append hp.length_eq.symm] at he
    rcases List.mem_append.mp he with he | he
    · exact hp.ignored e he
    · obtain rfl : e = (p, .ignored) := by simpa using he
      exact fun _ => rfl

theorem Paired.concat_segment (hp : Paired pattern paths results tracker tasks)
    (h : pattern.key? p = some key) :
    Paired pattern (paths ++ [p]) (results ++ [(alone pattern p tracker).dispatch])
      (alone pattern p tracker).tracker (tasks ++ (alone pattern p tracker).task.toList) := by
  have hne : ∀ q ∈ segmentsOf pattern key paths, q.bytes ≠ [] := by
    intro q hq
    exact SegmentPattern.bytes_ne_nil_of_key? (of_decide_eq_true (List.mem_filter.mp hq).2)
  obtain ⟨hd, ht, hs, ho⟩ := alone_of_segment h (hp.slot_eq key) hne
  have hother {other : StreamKey} (hk : other ≠ key) : ¬ pattern.key? p = some other := by
    rw [h]
    exact fun he => hk (Option.some.inj he).symm
  refine ⟨by simp [hp.length_eq], fun other => ?_, fun other => ?_, fun other => ?_,
    fun e he hn => ?_⟩
  · rw [resultsOf_concat hp.length_eq, segmentsOf_concat]
    by_cases hk : other = key
    · subst hk
      rw [if_pos h, if_pos h, pairedResults_concat, hp.results_eq, hd]
    · rw [if_neg (hother hk), if_neg (hother hk)]
      exact hp.results_eq other
  · rw [tasksOf_append, segmentsOf_concat, hp.tasks_eq, ht]
    by_cases hk : other = key
    · subst hk
      rw [if_pos h, pairedTasks_concat]
      congr 1
      cases (segmentsOf pattern other paths).getLast? <;> simp [tasksOf]
    · rw [if_neg (hother hk)]
      have hn : ¬ key = other := fun he => hk he.symm
      cases (segmentsOf pattern key paths).getLast? <;> simp [tasksOf, hn]
  · rw [segmentsOf_concat]
    by_cases hk : other = key
    · subst hk
      rw [if_pos h, hs]
      simp
    · rw [if_neg (hother hk), ho other hk]
      exact hp.slot_eq other
  · rw [List.zip_append hp.length_eq.symm] at he
    rcases List.mem_append.mp he with he | he
    · exact hp.ignored e he hn
    · obtain rfl : e = (p, (alone pattern p tracker).dispatch) := by simpa using he
      exact absurd (h.symm.trans hn) (by simp)

theorem source_mem_of_mem_pairedTasks {segments : List Path} {t : ExportTask}
    (h : t ∈ pairedTasks key segments) : t.source ∈ segments.dropLast := by
  obtain ⟨i, hi, rfl⟩ := List.mem_mapIdx.mp h
  exact List.getElem_mem hi

theorem Paired.source_mem (hp : Paired pattern paths results tracker tasks) {t : ExportTask}
    (ht : t ∈ tasks) : t.source ∈ (segmentsOf pattern t.key paths).dropLast := by
  have hm : t ∈ tasksOf t.key tasks := List.mem_filter.mpr ⟨ht, by simp⟩
  rw [hp.tasks_eq] at hm
  exact source_mem_of_mem_pairedTasks hm

theorem mem_segmentsOf : p ∈ segmentsOf pattern key paths ↔
    p ∈ paths ∧ pattern.key? p = some key := by
  simp [segmentsOf]

theorem Paired.last_not_exported (hp : Paired pattern paths results tracker tasks)
    (hd : paths.Nodup) (hl : (segmentsOf pattern key paths).getLast? = some p) :
    ∀ t ∈ tasks, t.source ≠ p := by
  rintro t ht rfl
  have hm := hp.source_mem ht
  have hkey := (mem_segmentsOf.mp (List.mem_of_getLast? hl)).2
  have hkey' := (mem_segmentsOf.mp (List.dropLast_subset _ hm)).2
  obtain rfl : key = t.key := Option.some.inj (hkey.symm.trans hkey')
  have hn : (segmentsOf pattern t.key paths).Nodup := hd.filter _
  obtain ⟨front, hf⟩ := List.getLast?_eq_some_iff.mp hl
  rw [hf] at hn hm
  rw [List.dropLast_concat] at hm
  exact (List.nodup_append.mp hn).2.2 _ hm _ List.mem_cons_self rfl

theorem all_concat (paths : List Path) (p : Path) (tracker : Tracker) :
    all pattern (paths ++ [p]) tracker =
      let (results, last, tasks, logs) := all pattern paths tracker
      let o := alone pattern p last
      (results ++ [o.dispatch], o.tracker, tasks ++ o.task.toList, logs ++ o.logs) := by
  induction paths generalizing tracker with
  | nil => simp [all]
  | cons q paths ih => simp [all, ih]

theorem all_paired (pattern : SegmentPattern) (paths : List Path) :
    Paired pattern paths (all pattern paths {}).1 (all pattern paths {}).2.1
      (all pattern paths {}).2.2.1 := by
  induction paths using List.reverseRecOn with
  | nil => exact ⟨rfl, fun _ => rfl, fun _ => rfl, fun _ => rfl, fun _ he => by simp [all] at he⟩
  | append_singleton paths p ih =>
    rw [all_concat]
    cases h : pattern.key? p with
    | none => simpa [alone_of_not_segment h] using ih.concat_not_segment h
    | some key => exact ih.concat_segment h

theorem Paired.result_cases (hp : Paired pattern paths results tracker tasks) {d : Dispatch}
    (hd : d ∈ results) :
    d = .ignored ∨ d = .recorded ∨ ∃ previous, d = .exporting previous false := by
  obtain ⟨p, hz⟩ : ∃ p, (p, d) ∈ paths.zip results := by
    have he : (paths.zip results).map Prod.snd = results :=
      List.map_snd_zip (Nat.le_of_eq hp.length_eq)
    obtain ⟨⟨p, _⟩, hz, rfl⟩ := List.mem_map.mp (he.symm ▸ hd)
    exact ⟨p, hz⟩
  cases hk : pattern.key? p with
  | none => exact Or.inl (hp.ignored _ hz hk)
  | some key =>
    right
    have hm : d ∈ resultsOf pattern key paths results :=
      List.mem_map.mpr ⟨_, List.mem_filter.mpr ⟨hz, by simpa using hk⟩, rfl⟩
    rw [hp.results_eq] at hm
    cases hs : segmentsOf pattern key paths with
    | nil => simp [hs, pairedResults] at hm
    | cons q qs =>
      rw [hs, pairedResults] at hm
      rcases List.mem_cons.mp hm with hm | hm
      · exact Or.inl hm
      · obtain ⟨previous, _, he⟩ := List.mem_map.mp hm
        exact Or.inr ⟨previous, he.symm⟩

/-- Sequential dispatches pair every segment with its predecessor of the same stream, whatever
is dispatched in between; other paths are ignored and change nothing. -/
theorem all_pairs (pattern : SegmentPattern) (paths : List Path) :
    let (results, tracker, tasks, _) := all pattern paths {}
    results.length = paths.length ∧
      (∀ key, resultsOf pattern key paths results =
          pairedResults (segmentsOf pattern key paths) ∧
        tasksOf key tasks = pairedTasks key (segmentsOf pattern key paths) ∧
        tracker.active? key = (segmentsOf pattern key paths).getLast? ∧
        tracker.count key = (segmentsOf pattern key paths).length) ∧
      (∀ e ∈ paths.zip results, pattern.key? e.1 = none → e.2 = .ignored) ∧
      (∀ p t, pattern.key? p = none → alone pattern p t = ⟨.ignored, t, none, []⟩) ∧
      (.orphaned ∉ results ∧ ∀ previous, .exporting previous true ∉ results) ∧
      ∀ key more, segmentsOf pattern key more = segmentsOf pattern key paths →
        resultsOf pattern key more (all pattern more {}).1 =
            resultsOf pattern key paths results ∧
          tasksOf key (all pattern more {}).2.2.1 = tasksOf key tasks ∧
          (all pattern more {}).2.1.slot key = tracker.slot key := by
  have hp := all_paired pattern paths
  refine ⟨hp.length_eq, fun key => ⟨hp.results_eq key, hp.tasks_eq key, ?_, ?_⟩, hp.ignored,
    fun p t h => alone_of_not_segment h t, ⟨fun h => ?_, fun previous h => ?_⟩,
    fun key more hmore => ?_⟩
  · rw [Tracker.active?, hp.slot_eq key]
  · rw [Tracker.count, hp.slot_eq key]
  · rcases hp.result_cases h with h | h | ⟨_, h⟩ <;> cases h
  · rcases hp.result_cases h with h | h | ⟨_, h⟩ <;> cases h
  · have hm := all_paired pattern more
    rw [hm.results_eq, hm.tasks_eq, hm.slot_eq, hp.results_eq, hp.tasks_eq, hp.slot_eq, hmore]
    exact ⟨rfl, rfl, rfl⟩

end Dispatch
end CaptureExport
