import Mathlib.Data.List.Nodup
import CaptureExport.Flush.Scan
import CaptureExport.Proofs.FileSystem.Tree

/-! # What a scan finds

A scan comes by every file at or below the source directory once, as far as paths are short enough.
The pending tasks are those of the segments among them that have no target yet.
-/

namespace CaptureExport

open FileSystem

theorem SegmentPattern.key?_join {dir : Path} {name : Name} (pattern : SegmentPattern)
    (hw : IsWord name) : pattern.key? (dir.join name) = pattern.key? ⟨name⟩ := by
  have hname : (⟨[]⟩ : Path).join name = ⟨name⟩ := by
    simp [Path.join, Path.head?_ne_separator hw.no_separator]
  rw [key?, key?, Path.fileName?_join hw, ← hname, Path.fileName?_join hw]

namespace FileSystem

variable {fs : FileSystem} {dir : Location} {name : Name} {node : Node}

theorem mem_children (hs : fs.Sound) :
    (name, node) ∈ fs.children dir ↔ fs.node? (name :: dir) = some node := by
  rw [children, List.mem_mergeSort, List.mem_filterMap]
  constructor
  · rintro ⟨⟨loc, n⟩, he, hf⟩
    cases loc with
    | nil => cases hf
    | cons a parent =>
      simp only [Option.ite_none_right_eq_some, Option.some.injEq, Prod.mk.injEq] at hf
      obtain ⟨rfl, rfl, rfl⟩ := hf
      exact (hs.mem_iff.mp he).2
  · intro hn
    exact ⟨(name :: dir, node), hs.mem_iff.mpr ⟨List.cons_ne_nil _ _, hn⟩, by simp⟩

theorem nodup_children (hs : fs.Sound) : ((fs.children dir).map Prod.fst).Nodup := by
  let inner (loc : Location) : Option Name := if loc.tail = dir then loc.head? else none
  have hnodup : ((fs.entries.map Prod.fst).filterMap inner).Nodup := by
    refine hs.distinct.filterMap fun loc loc' name h h' => ?_
    simp only [inner, Option.mem_def, Option.ite_none_right_eq_some, List.head?_eq_some_iff] at h h'
    obtain ⟨ht, l, rfl⟩ := h
    obtain ⟨ht', l', rfl⟩ := h'
    exact congrArg (name :: ·) (ht.trans ht'.symm)
  unfold children
  refine ((List.mergeSort_perm _ _).map Prod.fst).nodup_iff.mpr ?_
  rw [List.filterMap_map] at hnodup
  rw [List.map_filterMap]
  convert hnodup using 2 with e
  obtain ⟨loc, n⟩ := e
  cases loc with
  | nil => simp [inner]
  | cons a parent =>
    by_cases hp : parent = dir <;> simp [inner, hp]

end FileSystem

namespace Flush

def Found.path : Found → Path
  | file path | failed path _ => path

def findsAt (fs : FileSystem) (depth : ℕ) (loc : Location) (src : Path) (e : Name × Node) :
    List Found :=
  match e.2 with
  | .directory => walkDirectory fs depth (e.1 :: loc) (src.join e.1)
  | .file _ => [.file (src.join e.1)]
  | .link _ => []

variable {fs : FileSystem} {src p : Path} {loc : Location} {f : Found} {pattern : SegmentPattern}
  {mover : Mover} {depth : ℕ} {t : ExportTask} {e : Name × Node}

theorem walkDirectory_succ : walkDirectory fs (depth + 1) loc src =
    if pathLimit ≤ src.bytes.length then [.failed src .nameTooLong]
    else (fs.children loc).flatMap (findsAt fs depth loc src) := rfl

/-- The files that a walk comes by lie below its start, in directories whose paths are short. -/
theorem mem_walkDirectory (hs : fs.Sound) : Found.file p ∈ walkDirectory fs depth loc src ↔
    ∃ name names id, p = src.below (name :: names) ∧
      fs.node? (name :: (names ++ loc)) = some (.file id) ∧ names.length < depth ∧
      (src.below names).bytes.length < pathLimit := by
  induction depth generalizing loc src with
  | zero => simp [walkDirectory]
  | succ depth ih =>
    rw [walkDirectory_succ]
    split
    · rename_i hlong
      simp only [List.mem_singleton, reduceCtorEq, false_iff]
      rintro ⟨name, names, id, -, hn, -, hshort⟩
      have hle : src.bytes.length ≤ (src.below names).bytes.length :=
        Path.length_le_below (hs.isWord_of_mem (hs.parent_directory hn))
      omega
    · rename_i hlong
      rw [List.mem_flatMap]
      constructor
      · rintro ⟨⟨n, node⟩, he, hf⟩
        have hn := (mem_children hs).mp he
        cases node with
        | directory =>
          obtain ⟨name, names, id, rfl, hfile, hdepth, hshort⟩ := ih.mp hf
          refine ⟨name, names ++ [n], id, ?_, by simpa using hfile, by simpa using hdepth, ?_⟩
          · exact (@Path.below_concat src n (name :: names)).symm
          · rwa [Path.below_concat]
        | file id =>
          exact ⟨n, [], id, by simpa [findsAt, Path.below] using hf, hn, Nat.succ_pos _,
            Nat.not_le.mp hlong⟩
        | link t => cases hf
      · rintro ⟨name, names, id, hp, hn, hdepth, hshort⟩
        -- the last name is the first step down
        rcases List.eq_nil_or_concat names with rfl | ⟨names, n, rfl⟩
        · exact ⟨(name, .file id), (mem_children hs).mpr hn, by simp [hp, findsAt, Path.below]⟩
        · rw [List.concat_eq_append] at hp hn hdepth hshort
          rw [Path.below_concat] at hshort
          have hfile : fs.node? ((name :: names) ++ n :: loc) = some (.file id) := by
            simpa using hn
          refine ⟨(n, .directory), (mem_children hs).mpr (hs.directory_above (by simp) hfile), ?_⟩
          exact ih.mpr ⟨name, names, id, hp.trans (@Path.below_concat src n (name :: names)), hfile,
            by simpa using hdepth, hshort⟩

theorem path_of_mem_findsAt (hs : fs.Sound) (he : e ∈ fs.children loc)
    (hin : ∀ f ∈ walkDirectory fs depth (e.1 :: loc) (src.join e.1),
      ∃ names, (∀ n ∈ names, IsWord n) ∧ f.path = (src.join e.1).below names)
    (hf : f ∈ findsAt fs depth loc src e) :
    ∃ names, (∀ n ∈ names ++ [e.1], IsWord n) ∧ f.path = src.below (names ++ [e.1]) := by
  obtain ⟨n, node⟩ := e
  have hword := (hs.isName ((mem_children hs).mp he)).toIsWord
  cases node with
  | directory =>
    obtain ⟨names, hw, hp⟩ := hin f hf
    exact ⟨names, by simpa [or_imp, forall_and] using ⟨hw, hword⟩,
      hp.trans Path.below_concat.symm⟩
  | file id =>
    obtain rfl := List.mem_singleton.mp hf
    exact ⟨[], by simpa using hword, rfl⟩
  | link t => cases hf

theorem path_of_mem_walkDirectory (hs : fs.Sound) (h : f ∈ walkDirectory fs depth loc src) :
    ∃ names, (∀ n ∈ names, IsWord n) ∧ f.path = src.below names := by
  induction depth generalizing loc src f with
  | zero => cases h
  | succ depth ih =>
    rw [walkDirectory_succ] at h
    split at h
    · obtain rfl := List.mem_singleton.mp h
      exact ⟨[], by simp, rfl⟩
    · obtain ⟨e, he, hf⟩ := List.mem_flatMap.mp h
      obtain ⟨names, hw, hp⟩ := path_of_mem_findsAt hs he (fun f hf => ih hf) hf
      exact ⟨_, hw, hp⟩

theorem nodup_walkDirectory (hs : fs.Sound) :
    ((walkDirectory fs depth loc src).map Found.path).Nodup := by
  induction depth generalizing loc src with
  | zero => exact List.nodup_nil
  | succ depth ih =>
    rw [walkDirectory_succ]
    split
    · simp
    · rw [List.map_flatMap]
      refine List.nodup_flatMap.mpr ⟨fun ⟨n, node⟩ _ => ?_, ?_⟩
      · cases node with
        | directory => exact ih
        | _ => simp [findsAt]
      · -- what is found at two entries differs in the names of the entries
        refine (List.pairwise_map.mp (nodup_children hs)).imp_of_mem fun ha hb hne p hp hp' => ?_
        obtain ⟨f, hf, rfl⟩ := List.mem_map.mp hp
        obtain ⟨g, hg, he⟩ := List.mem_map.mp hp'
        obtain ⟨names, hw, hfp⟩ :=
          path_of_mem_findsAt hs ha (fun f hf => path_of_mem_walkDirectory hs hf) hf
        obtain ⟨more, hw', hgp⟩ :=
          path_of_mem_findsAt hs hb (fun f hf => path_of_mem_walkDirectory hs hf) hg
        have hnames := Path.below_injective hw hw' (hfp.symm.trans (he.symm.trans hgp))
        exact hne (by simpa using congrArg List.getLast? hnames)

section Source

variable (hs : fs.Sound) (h : fs.stat src = .ok (loc, .directory))
include h

theorem walk_of_stat : walk fs src = walkDirectory fs (fs.entries.length + 1) loc src := by
  unfold walk
  rcases linkStat_of_stat h with hl | ⟨l, t, hl⟩
  · rw [hl]
  · rw [hl, h]

include hs

theorem mem_walk : Found.file p ∈ walk fs src ↔ ∃ name names id,
    p = src.below (name :: names) ∧ fs.node? (name :: (names ++ loc)) = some (.file id) ∧
      (src.below names).bytes.length < pathLimit := by
  rw [walk_of_stat h, mem_walkDirectory hs]
  constructor
  · rintro ⟨name, names, id, hp, hn, -, hshort⟩
    exact ⟨name, names, id, hp, hn, hshort⟩
  · rintro ⟨name, names, id, hp, hn, hshort⟩
    exact ⟨name, names, id, hp, hn, Nat.lt_succ_of_le (hs.length_le (hs.parent_directory hn)),
      hshort⟩

omit hs h in
theorem mem_judge : t ∈ (judge fs src pattern mover f).1 ↔ ∃ p key, f = .file p ∧
    pattern.key? p = some key ∧ isExported fs mover p = false ∧ t = ⟨p, key, .terminal⟩ := by
  cases f with
  | failed path cause => simp [judge]
  | file path =>
    simp only [judge]
    cases hk : pattern.key? path with
    | none => simp [hk]
    | some key => cases hx : isExported fs mover path <;> simp [hk, hx]

/-- The pending tasks are those of the segments at or below the source directory without a
target. -/
theorem mem_pending : t ∈ (pending fs src pattern mover).1 ↔ ∃ name names id key,
    fs.node? (name :: (names ++ loc)) = some (.file id) ∧
      (src.below names).bytes.length < pathLimit ∧
      pattern.key? (src.below (name :: names)) = some key ∧
      isExported fs mover (src.below (name :: names)) = false ∧
      t = ⟨src.below (name :: names), key, .terminal⟩ := by
  simp only [pending, List.flatMap_map, List.mem_flatMap, mem_judge]
  constructor
  · rintro ⟨f, hf, p, key, rfl, hk, he, rfl⟩
    obtain ⟨name, names, id, rfl, hn, hshort⟩ := (mem_walk hs h).mp hf
    exact ⟨name, names, id, key, hn, hshort, hk, he, rfl⟩
  · rintro ⟨name, names, id, key, hn, hshort, hk, he, rfl⟩
    exact ⟨_, (mem_walk hs h).mpr ⟨name, names, id, rfl, hn, hshort⟩, _, key, rfl, hk, he, rfl⟩

theorem nodup_pending : ((pending fs src pattern mover).1.map ExportTask.source).Nodup := by
  have hsub (l : List Found) :
      ((l.flatMap fun f => (judge fs src pattern mover f).1).map ExportTask.source).Sublist
        (l.map Found.path) := by
    induction l with
    | nil => simp
    | cons f l ih =>
      simp only [List.flatMap_cons, List.map_append, List.map_cons]
      refine @List.Sublist.append _ _ [f.path] _ _ ?_ ih
      cases f with
      | failed path cause => simp [judge]
      | file path =>
        simp only [judge]
        split
        · simp
        · split <;> simp [Found.path]
  simp only [pending, List.flatMap_map]
  refine (hsub _).nodup ?_
  rw [walk_of_stat h]
  exact nodup_walkDirectory hs

def NoneBelow (fs : FileSystem) (pattern : SegmentPattern) (loc : Location) : Prop :=
  ∀ name parent id, isWithin loc parent → parent ≠ loc →
    fs.node? (name :: parent) = some (.file id) → pattern.key? ⟨name⟩ = none

theorem mem_pending_of_noneBelow (hb : NoneBelow fs pattern loc) :
    t ∈ (pending fs src pattern mover).1 ↔ ∃ name id key,
      fs.node? (name :: loc) = some (.file id) ∧ pattern.key? (src.join name) = some key ∧
        isExported fs mover (src.join name) = false ∧ t = ⟨src.join name, key, .terminal⟩ := by
  rw [mem_pending hs h]
  constructor
  · rintro ⟨name, names, id, key, hn, -, hk, he, rfl⟩
    have hnil : names = [] := by
      by_contra hne
      have hloc : names ++ loc ≠ loc := by simpa using hne
      have hnone := hb name _ id (isWithin_iff.mpr (List.suffix_append names loc)) hloc hn
      rw [Path.below, pattern.key?_join (hs.isName hn).toIsWord, hnone] at hk
      cases hk
    subst hnil
    exact ⟨name, id, key, hn, hk, he, rfl⟩
  · rintro ⟨name, id, key, hn, hk, he, rfl⟩
    obtain ⟨spot, s, hr, -⟩ := stat_eq_directory_iff.mp h
    obtain ⟨-, -, hshort, -⟩ := resolve_eq_ok hr
    exact ⟨name, [], id, key, hn, hshort, hk, he, rfl⟩

end Source

end Flush
end CaptureExport
