import Mathlib.Data.List.Nodup
import CaptureExport.Proofs.Export.Schedule
import CaptureExport.Proofs.Export.Stage

/-! # Moves of different files

Moves of different files of one directory do not meet: each of them goes through its stages, and
every location that belongs to none of them keeps what has stood there.
-/

namespace CaptureExport

open FileSystem

def Job.Concerns (site : Site) (compress : Bool) (j : Job) (loc : Location) : Prop :=
  ∃ name, IsWord name ∧ j.source = site.src.join name ∧
    (loc = site.sourceOf name ∨ loc = site.targetOf compress name)

/-- Moves of different files that have been written to the source directory: each has come to a
stage, and everything else stands as it did. -/
structure Batch (site : Site) (options : MoveOptions) (written : List (Name × Bytes))
    (base : Location → Option Standing) (jobs : List Job) (fs : FileSystem) : Prop where
  on : site.On fs
  options_eq : ∀ j ∈ jobs, j.options = options
  distinct : (jobs.map Job.source).Nodup
  stage : ∀ j ∈ jobs, ∃ w ∈ written, j.source = site.src.join w.1 ∧ Admits site.src w.1 ∧
    Move.Stage site options.compress w.1 w.2 fs j.phase
  others : ∀ loc, (∀ j ∈ jobs, ¬ j.Concerns site options.compress loc) →
    fs.standing? loc = base loc

variable {site : Site} {options : MoveOptions} {written : List (Name × Bytes)}
  {base : Location → Option Standing} {jobs : List Job} {fs gs : FileSystem} {i : ℕ} {j j' : Job}
  {loc : Location} {name other : Name} {phase : Move.Phase}

theorem Site.source_injective (h : site.sourceOf name = site.sourceOf other) : name = other :=
  (List.cons.inj h).1

theorem Site.target_injective {compress : Bool}
    (h : site.targetOf compress name = site.targetOf compress other) : name = other :=
  Mover.targetName_injective compress (List.cons.inj h).1

theorem Job.concerns_iff {compress : Bool} (hw : IsWord name) (hs : j.source = site.src.join name) :
    j.Concerns site compress loc ↔
      loc = site.sourceOf name ∨ loc = site.targetOf compress name := by
  constructor
  · rintro ⟨other, hw', hs', h⟩
    obtain rfl := Path.join_injective hw hw' (hs.symm.trans hs')
    exact h
  · intro h
    exact ⟨name, hw, hs, h⟩

theorem mem_set_cases (hd : (jobs.map Job.source).Nodup) (hj : jobs[i]? = some j) {k : Job}
    (hk : k ∈ jobs.set i j') : k = j' ∨ (k ∈ jobs ∧ k.source ≠ j.source) := by
  obtain ⟨m, hm⟩ := List.mem_iff_getElem?.mp hk
  rcases getElem?_set_cases hm with ⟨-, rfl⟩ | ⟨hne, hm⟩
  · exact Or.inl rfl
  · refine Or.inr ⟨List.mem_of_getElem? hm, fun hs => hne ?_⟩
    have hm' : (jobs.map Job.source)[m]? = some k.source := by simp [hm]
    have hi' : (jobs.map Job.source)[i]? = some k.source := by simp [hj, hs]
    have hlt : m < (jobs.map Job.source).length := (List.getElem?_eq_some_iff.mp hm').1
    exact (List.getElem?_inj hlt hd).mp (hm'.trans hi'.symm)

theorem Batch.set (h : Batch site options written base jobs fs) (hap : site.Apart)
    (hj : jobs[i]? = some j) (hs : j'.source = j.source) (ho : j'.options = j.options)
    (hstep : ∀ w ∈ written, j.source = site.src.join w.1 → Admits site.src w.1 →
      Move.Stage site options.compress w.1 w.2 fs j.phase →
        Move.Advances site options.compress w.1 w.2 fs gs j'.phase) :
    Batch site options written base (jobs.set i j') gs := by
  obtain ⟨w, hw, hsource, hadm, hstage⟩ := h.stage j (List.mem_of_getElem? hj)
  have hadv := hstep w hw hsource hadm hstage
  constructor
  case on => exact h.on.of_narrows hadv.narrows hadv.sound
  case options_eq =>
    intro k hk
    rcases mem_set_cases h.distinct hj hk with rfl | ⟨hk, -⟩
    · exact ho.trans (h.options_eq j (List.mem_of_getElem? hj))
    · exact h.options_eq k hk
  case distinct =>
    rw [map_set_eq hj hs]
    exact h.distinct
  case stage =>
    intro k hk
    rcases mem_set_cases h.distinct hj hk with rfl | ⟨hk, hne⟩
    · exact ⟨w, hw, hs.trans hsource, hadm, hadv.stage⟩
    · obtain ⟨v, hv, hvs, hvadm, hvstage⟩ := h.stage k hk
      have hvw : v.1 ≠ w.1 := fun he => hne (by rw [hvs, hsource, he])
      refine ⟨v, hv, hvs, hvadm, hvstage.same (hadv.same _ ?_ ?_) (hadv.same _ ?_ ?_)⟩
      · exact fun he => hvw (Site.source_injective he)
      · exact Site.source_ne_target hap _ _ _
      · exact fun he => Site.source_ne_target hap _ _ _ he.symm
      · exact fun he => hvw (Site.target_injective he)
  case others =>
    intro l hl
    have hl' := hl j' (mem_set_self hj)
    rw [Job.concerns_iff hadm.toIsWord (hs.trans hsource), not_or] at hl'
    rw [(hadv.same l hl'.1 hl'.2).standing_eq]
    refine h.others l fun k hk => ?_
    obtain ⟨m, hm⟩ := List.mem_iff_getElem?.mp hk
    by_cases hmi : i = m
    · subst hmi
      obtain rfl : j = k := Option.some.inj (hj.symm.trans hm)
      rw [Job.concerns_iff hadm.toIsWord hsource, not_or]
      exact hl'
    · refine hl k (List.mem_iff_getElem?.mpr ⟨m, ?_⟩)
      rw [List.getElem?_set_ne hmi, hm]

theorem Batch.standing_eq (h : Batch site options written base jobs fs)
    (hl : ∀ j ∈ jobs, ∀ v ∈ written, j.source = site.src.join v.1 →
      loc ≠ site.sourceOf v.1 ∧ loc ≠ site.targetOf options.compress v.1) :
    fs.standing? loc = base loc := by
  refine h.others loc fun j hj hc => ?_
  obtain ⟨v, hv, hs, hadm, -⟩ := h.stage j hj
  obtain ⟨hsource, htarget⟩ := hl j hj v hv hs
  rcases (Job.concerns_iff hadm.toIsWord hs).mp hc with he | he
  · exact hsource he
  · exact htarget he

theorem Job.not_concerns {compress : Bool} (hap : site.Apart) (hne : j.source ≠ site.src.join name)
    (hl : loc = site.sourceOf name ∨ loc = site.targetOf compress name) :
    ¬ j.Concerns site compress loc := by
  rintro ⟨other, hw, hs, ho⟩
  have hno : name ≠ other := by
    rintro rfl
    exact hne hs
  rcases hl with rfl | rfl <;> rcases ho with ho | ho
  · exact hno (Site.source_injective ho)
  · exact Site.source_ne_target hap _ _ _ ho
  · exact Site.source_ne_target hap _ _ _ ho.symm
  · exact hno (Site.target_injective ho)

/-- Another file can be moved once it stands in the source directory and has no target. -/
theorem Batch.append (h : Batch site options written base jobs fs) (hap : site.Apart)
    {w : Name × Bytes} (hw : w ∈ written) (hadm : Admits site.src w.1)
    (hnew : ∀ k ∈ jobs, k.source ≠ site.src.join w.1)
    (hsource : base (site.sourceOf w.1) = some (.file w.2))
    (htarget : base (site.targetOf options.compress w.1) = none)
    (hs : j.source = site.src.join w.1) (ho : j.options = options) (hp : j.phase = .starting) :
    Batch site options written base (jobs ++ [j]) fs := by
  constructor
  case on => exact h.on
  case options_eq =>
    intro k hk
    rcases List.mem_append.mp hk with hk | hk
    · exact h.options_eq k hk
    · rwa [List.mem_singleton.mp hk]
  case distinct =>
    rw [List.map_append, List.map_singleton, hs]
    refine List.nodup_append_comm.mp (List.nodup_cons.mpr ⟨fun hm => ?_, h.distinct⟩)
    obtain ⟨k, hk, he⟩ := List.mem_map.mp hm
    exact hnew k hk he
  case stage =>
    intro k hk
    rcases List.mem_append.mp hk with hk | hk
    · exact h.stage k hk
    · obtain rfl := List.mem_singleton.mp hk
      refine ⟨w, hw, hs, hadm, ?_⟩
      rw [hp]
      refine ⟨?_, standing?_eq_none_iff.mp ?_⟩
      · rw [← hsource]
        exact h.others _ fun m hm => Job.not_concerns hap (hnew m hm) (Or.inl rfl)
      · rw [← htarget]
        exact h.others _ fun m hm => Job.not_concerns hap (hnew m hm) (Or.inr rfl)
  case others =>
    intro l hl
    exact h.others l fun k hk => hl k (List.mem_append_left _ hk)

theorem Batch.write (h : Batch site options written base jobs fs) (hap : site.Apart)
    {content : Bytes} (hfree : fs.node? (site.sourceOf name) = none) (hadm : Admits site.src name)
    (hnew : ∀ w ∈ written, w.1 ≠ name) {base' : Location → Option Standing}
    (hbase : ∀ l, base' l = if l = site.sourceOf name then some (.file content) else base l) :
    Batch site options (written ++ [(name, content)]) base' jobs
      (fs.insertFile (site.sourceOf name) content).1 := by
  have hdir : fs.node? site.srcLoc = some .directory := node?_of_stat h.on.sound h.on.src
  have hsound := @Sound.insertFile fs site.srcLoc name content h.on.sound hfree hdir hadm.toIsName
  have hsame {l : Location} (hl : l ≠ site.sourceOf name) :
      Same fs (fs.insertFile (site.sourceOf name) content).1 l :=
    same_insertFile h.on.sound hfree hl
  constructor
  case on => exact h.on.of_narrows (insertFile_narrows hfree) hsound
  case options_eq => exact h.options_eq
  case distinct => exact h.distinct
  case stage =>
    intro k hk
    obtain ⟨w, hw, hs, hwadm, hstage⟩ := h.stage k hk
    refine ⟨w, List.mem_append_left _ hw, hs, hwadm, hstage.same (hsame fun he => ?_)
      (hsame fun he => ?_)⟩
    · exact hnew w hw (Site.source_injective he)
    · exact Site.source_ne_target hap _ _ _ he.symm
  case others =>
    intro l hl
    rw [hbase]
    split
    · rename_i he
      subst he
      refine standing?_eq_file_iff.mpr ⟨fs.contents.length, ?_, ?_⟩
      · rw [node?_insertFile hfree, if_pos rfl]
      · rw [content_insertFile, if_pos rfl]
    · rename_i he
      rw [(hsame he).standing_eq]
      exact h.others l hl

end CaptureExport
