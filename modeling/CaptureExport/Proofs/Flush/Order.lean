import CaptureExport.Proofs.Flush.Again

/-! # The order of a scan

A scan comes by what lies below its start in the order of the names: where two paths part, the
smaller name comes first. So it gives one task for each segment that has no target, in this order.
-/

namespace CaptureExport

open FileSystem

/-- Two paths part at some name, where the name of the first one is the smaller. -/
def Path.Precedes (p q : Path) : Prop :=
  ∃ front a b back back', p.fields = front ++ a :: back ∧ q.fields = front ++ b :: back' ∧ a < b

namespace Path

variable {p q src : Path} {names more : List Name} {a b : Name}

theorem Precedes.ne (h : Precedes p q) : p ≠ q := by
  rintro rfl
  obtain ⟨front, a, b, back, back', hp, hq, hlt⟩ := h
  obtain ⟨rfl, -⟩ := List.cons.inj (List.append_cancel_left (hp.symm.trans hq))
  exact List.lt_irrefl a hlt

/-- Below a directory paths part at the latest at the outermost of their names that differ. -/
theorem precedes_below (hw : ∀ n ∈ names ++ [a], IsWord n) (hw' : ∀ n ∈ more ++ [b], IsWord n)
    (h : a < b) : Precedes (src.below (names ++ [a])) (src.below (more ++ [b])) := by
  refine ⟨src.fields, a, b, names.reverse, more.reverse, ?_, ?_, h⟩
  · rw [fields_below hw, List.reverse_concat]
  · rw [fields_below hw', List.reverse_concat]

end Path

namespace FileSystem

variable {fs : FileSystem} {dir : Location}

theorem ordered_children (hs : fs.Sound) :
    (fs.children dir).Pairwise fun a b => a.1 < b.1 := by
  have hsorted : (fs.children dir).Pairwise fun a b => a.1 ≤ b.1 := by
    refine (List.pairwise_mergeSort (fun a b c hab hbc => ?_) (fun a b => ?_) _).imp
      of_decide_eq_true
    · simp only [decide_eq_true_eq] at hab hbc ⊢
      exact List.le_trans hab hbc
    · simpa using List.le_total a.1 b.1
  refine (hsorted.and (List.pairwise_map.mp (nodup_children hs))).imp fun ⟨hle, hne⟩ => ?_
  exact Std.lt_of_le_of_ne hle hne

end FileSystem

namespace Flush

variable {fs : FileSystem} {src p q : Path} {loc : Location} {pattern : SegmentPattern}
  {mover : Mover} {depth : ℕ}

theorem ordered_walkDirectory (hs : fs.Sound) :
    (walkDirectory fs depth loc src).Pairwise fun f g => Path.Precedes f.path g.path := by
  induction depth generalizing loc src with
  | zero => exact List.Pairwise.nil
  | succ depth ih =>
    rw [walkDirectory_succ]
    split
    · exact List.pairwise_singleton _ _
    · rw [List.pairwise_flatMap]
      constructor
      · rintro ⟨n, node⟩ -
        cases node with
        | directory => exact ih
        | file id => exact List.pairwise_singleton _ _
        | link t => exact List.Pairwise.nil
      · -- what is found at two entries parts at the names of the entries
        refine (ordered_children hs).imp_of_mem fun ha hb hlt f hf g hg => ?_
        obtain ⟨names, hw, hfp⟩ :=
          path_of_mem_findsAt hs ha (fun f hf => path_of_mem_walkDirectory hs hf) hf
        obtain ⟨more, hw', hgp⟩ :=
          path_of_mem_findsAt hs hb (fun f hf => path_of_mem_walkDirectory hs hf) hg
        rw [hfp, hgp]
        exact Path.precedes_below hw hw' hlt

theorem ordered_walk (hs : fs.Sound) :
    (walk fs src).Pairwise fun f g => Path.Precedes f.path g.path := by
  unfold walk
  split
  · exact List.pairwise_singleton _ _
  · exact List.pairwise_singleton _ _
  · exact ordered_walkDirectory hs
  · split
    · exact List.pairwise_singleton _ _
    · exact ordered_walkDirectory hs
    · exact List.Pairwise.nil

theorem ordered_pending (hs : fs.Sound) :
    (pending fs src pattern mover).1.Pairwise fun t u => Path.Precedes t.source u.source := by
  simp only [pending, List.flatMap_map, List.pairwise_flatMap]
  constructor
  · intro f _
    cases f with
    | failed path cause => exact List.Pairwise.nil
    | file path =>
      simp only [judge]
      split
      · exact List.Pairwise.nil
      · split <;> simp
  · refine (ordered_walk hs).imp fun {f g} h t ht u hu => ?_
    obtain ⟨p, key, rfl, -, -, rfl⟩ := mem_judge.mp ht
    obtain ⟨q, key', rfl, -, -, rfl⟩ := mem_judge.mp hu
    exact h

theorem FoundAt.path_eq (h : FoundAt fs src p loc) (h' : FoundAt fs src q loc) : p = q := by
  have hnot {d : Location} (hsep : endsInSeparator src = false) {id : FileId}
      (hp : fs.place? false src = some d) (hn : fs.node? d = some (.file id)) {l : Location}
      (hd : fs.stat src = .ok (l, .directory)) : False := by
    have hl := linkStat_eq_file_iff.mpr ⟨hsep, hp, hn⟩
    rcases linkStat_of_stat hd with h | ⟨l, t, h⟩ <;> simp [hl] at h
  cases h with
  | itself hsep hp hn =>
    generalize hloc : loc = l at h'
    cases h' with
    | itself => rfl
    | inside hd => exact (hnot hsep hp hn hd).elim
  | @inside d name names id hd hn hshort =>
    generalize hloc : name :: (names ++ d) = l at h'
    cases h' with
    | itself hsep hp hn' => exact (hnot hsep hp hn' hd).elim
    | @inside d' name' names' id' hd' =>
      obtain rfl : d = d' := by simpa using hd.symm.trans hd'
      obtain ⟨rfl, hnames⟩ := List.cons.inj hloc
      rw [List.append_cancel_right hnames]

/-- A scan gives one task for each segment at or below its path without a target, in the order of a
walk, as long as the path of the segment's own directory is short enough to be read. -/
theorem pending_exact (hs : fs.Sound) (src : Path) (pattern : SegmentPattern) (mover : Mover) :
    (∀ t, t ∈ (pending fs src pattern mover).1 ↔ ∃ p loc key, FoundAt fs src p loc ∧
      pattern.key? p = some key ∧ fs.hasPath (mover.targetFor p false) = false ∧
        fs.hasPath (mover.targetFor p true) = false ∧ t = ⟨p, key, .terminal⟩) ∧
    (pending fs src pattern mover).1.Pairwise (fun t u =>
      Path.Precedes t.source u.source ∧
        ∀ loc, FoundAt fs src t.source loc → ¬ FoundAt fs src u.source loc) ∧
    ∀ st plan began, (exports st plan fs began).files = fs := by
  refine ⟨fun t => ?_, (ordered_pending hs).imp fun h => ⟨h, fun loc ht hu => ?_⟩,
    fun _ _ _ => rfl⟩
  · simp only [mem_pending_iff hs, isExported, Bool.or_eq_false_iff, and_assoc]
  · exact h.ne (ht.path_eq hu)

/-- Segments of one name in two directories, and a task for each of them. -/
theorem pending_exact_of_nestedFiles : nestedFiles.Sound ∧
    (∀ dir ∈ [[97], [98]], ⟨nestedSetting.src.below [nestedName, dir], ⟨0, "e", ""⟩, .terminal⟩ ∈
      (pending nestedFiles nestedSetting.src nestedSetting.pattern
        nestedSetting.exporter.mover).1) ∧
    (pending nestedFiles nestedSetting.src nestedSetting.pattern
      nestedSetting.exporter.mover).1.Pairwise fun t u => Path.Precedes t.source u.source := by
  have hs : nestedFiles.Sound := by decide
  have hd : nestedFiles.stat nestedSetting.src = .ok ([[115]], .directory) := by decide
  obtain ⟨hmem, hordered, -⟩ := pending_exact hs nestedSetting.src nestedSetting.pattern
    nestedSetting.exporter.mover
  refine ⟨hs, fun dir hdir => ?_, hordered.imp And.left⟩
  have hfound : FoundAt nestedFiles nestedSetting.src (nestedSetting.src.below [nestedName, dir])
      [nestedName, dir, [115]] := by
    rcases List.mem_pair.mp hdir with rfl | rfl
    · exact @FoundAt.inside _ _ [[115]] nestedName [[97]] 0 hd (by decide) (by decide)
    · exact @FoundAt.inside _ _ [[115]] nestedName [[98]] 1 hd (by decide) (by decide)
  refine (hmem _).mpr ⟨_, _, _, hfound, ?_, ?_, ?_, rfl⟩
  all_goals rcases List.mem_pair.mp hdir with rfl | rfl <;> decide

/-! ### A directory that cannot be read -/

def dottedSource : Path := ⟨(List.replicate 2047 [46, 47]).flatten⟩

def dottedFiles : FileSystem :=
  ⟨[([[115, 114, 99]], .directory), ([nestedName, [115, 114, 99]], .file 0)], [[1]], []⟩

/-- The segment lies below the source directory and has no target, but there is no task for it.
There is one when the source is the segment itself. -/
theorem pending_misses_dotted : dottedFiles.Sound ∧
    dottedFiles.stat dottedSource = .ok ([], .directory) ∧
    dottedFiles.node? [nestedName, [115, 114, 99]] = some (.file 0) ∧
    innerSetting.pattern.key? (dottedSource.below [nestedName, [115, 114, 99]]) =
      some ⟨0, "e", ""⟩ ∧
    (∀ compress, dottedFiles.hasPath (innerSetting.exporter.mover.targetFor
      (dottedSource.below [nestedName, [115, 114, 99]]) compress) = false) ∧
    (pending dottedFiles dottedSource innerSetting.pattern innerSetting.exporter.mover).1 = [] ∧
    (pending dottedFiles (Path.join ⟨[115, 114, 99]⟩ nestedName) innerSetting.pattern
      innerSetting.exporter.mover).1 =
        [⟨Path.join ⟨[115, 114, 99]⟩ nestedName, ⟨0, "e", ""⟩, .terminal⟩] := by
  have hs : dottedFiles.Sound := by decide
  have hd : dottedFiles.stat dottedSource = .ok ([], .directory) := by decide +kernel
  have hw : IsWord nestedName := by decide
  have hlong : pathLimit ≤ (dottedSource.below [[115, 114, 99]]).bytes.length := by
    have hlength : dottedSource.bytes.length = 4094 := by decide +kernel
    have hseparator : Path.separator ∉ ([115, 114, 99] : Name) := by decide
    rcases @Path.join_cases dottedSource _ hseparator with ⟨-, h⟩ | ⟨-, h⟩ <;>
      simp [Path.below, h, hlength, pathLimit]
  refine ⟨hs, hd, by decide, ?_, fun compress => ?_, ?_, by decide⟩
  · rw [Path.below, SegmentPattern.key?_join _ hw]
    decide
  · rw [Path.below, Mover.targetFor_join _ hw]
    cases compress <;> decide
  · rw [List.eq_nil_iff_forall_not_mem]
    intro t ht
    obtain ⟨name, names, id, key, hn, hshort, -⟩ := (mem_pending hs hd).mp ht
    have hm := hs.mem_iff.mpr ⟨List.cons_ne_nil _ _, hn⟩
    obtain ⟨⟨rfl, rfl⟩, -⟩ : (name = nestedName ∧ names = [[115, 114, 99]]) ∧ id = 0 := by
      simpa [dottedFiles] using hm
    exact Nat.not_le.mpr hshort hlong

end Flush
end CaptureExport
