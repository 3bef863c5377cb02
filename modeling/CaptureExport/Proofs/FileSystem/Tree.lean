import Mathlib.Data.List.Nodup
import Mathlib.Data.List.Perm.Subperm
import CaptureExport.Proofs.FileSystem.Operations

/-! # Trees

Names lead from a directory down to what lies in it at any depth. No path is deeper than there are
entries, and a path that is short enough leads to the entry that its names spell.
-/

namespace CaptureExport

open FileSystem

namespace Path

/-- The path from a directory down along names, the deepest of them first. -/
def below (dir : Path) : List Name → Path
  | [] => dir
  | name :: names => (dir.below names).join name

variable {dir : Path} {name : Name} {names more : List Name}

theorem below_concat : dir.below (names ++ [name]) = (dir.join name).below names := by
  induction names with
  | nil => rfl
  | cons first names ih => exact congrArg (·.join first) ih

theorem fields_below (hw : ∀ n ∈ names, IsWord n) :
    (dir.below names).fields = dir.fields ++ names.reverse := by
  induction names with
  | nil => simp [below]
  | cons name names ih =>
    obtain ⟨hname, hrest⟩ := List.forall_mem_cons.mp hw
    rw [below, fields_join (isFileName_of_isWord hname), ih hrest, List.reverse_cons,
      List.append_assoc]

theorem below_injective (hw : ∀ n ∈ names, IsWord n) (hw' : ∀ n ∈ more, IsWord n)
    (h : dir.below names = dir.below more) : names = more := by
  have hf := congrArg fields h
  rw [fields_below hw, fields_below hw'] at hf
  exact List.reverse_injective (List.append_cancel_left hf)

theorem length_lt_join (hw : IsWord name) : dir.bytes.length < (dir.join name).bytes.length := by
  have hpos : 0 < name.length := List.length_pos_of_ne_nil hw.ne_nil
  rcases @join_cases dir name hw.no_separator with ⟨-, h⟩ | ⟨-, h⟩ <;>
    rw [h] <;> simp only [List.length_append, List.length_cons] <;> omega

theorem length_le_below (hw : ∀ n ∈ names, IsWord n) :
    dir.bytes.length ≤ (dir.below names).bytes.length := by
  induction names with
  | nil => exact Nat.le_refl _
  | cons name names ih =>
    obtain ⟨hname, hrest⟩ := List.forall_mem_cons.mp hw
    exact Nat.le_trans (ih hrest) (Nat.le_of_lt (length_lt_join hname))

end Path

namespace FileSystem

variable {fs : FileSystem} {dir : Path} {loc : Location} {name : Name} {names : List Name}
  {node : Node} {id : FileId}

namespace Sound

variable (hs : fs.Sound)
include hs

theorem directory_above (hne : names ≠ []) (h : fs.node? (names ++ loc) = some node) :
    fs.node? loc = some .directory := by
  induction names generalizing node with
  | nil => exact absurd rfl hne
  | cons name names ih =>
    have hparent := hs.parent_directory h
    by_cases hnil : names = []
    · subst hnil
      exact hparent
    · exact ih hnil hparent

theorem isName_of_mem (h : fs.node? (names ++ loc) = some node) : ∀ n ∈ names, IsName n := by
  induction names generalizing node with
  | nil => simp
  | cons name names ih =>
    exact List.forall_mem_cons.mpr ⟨hs.isName h, ih (hs.parent_directory h)⟩

theorem isWord_of_mem (h : fs.node? (names ++ loc) = some node) : ∀ n ∈ names, IsWord n :=
  fun n hn => (hs.isName_of_mem h n hn).toIsWord

/-- Nothing lies deeper than there are entries. -/
theorem length_le (h : fs.node? (names ++ loc) = some node) :
    names.length ≤ fs.entries.length := by
  let above := (List.range names.length).map fun k => (names ++ loc).drop k
  have hnodup : above.Nodup := by
    refine List.Nodup.map_on (fun a ha b hb he => ?_) List.nodup_range
    have hlen := congrArg List.length he
    simp only [List.length_drop, List.length_append] at hlen
    have ha' := List.mem_range.mp ha
    have hb' := List.mem_range.mp hb
    omega
  have hsub : above ⊆ fs.entries.map Prod.fst := by
    intro l hl
    obtain ⟨k, hk, rfl⟩ := List.mem_map.mp hl
    have hlt := List.mem_range.mp hk
    have hsome : ∃ n, fs.node? ((names ++ loc).drop k) = some n := by
      by_cases hzero : k = 0
      · exact ⟨node, by simpa [hzero] using h⟩
      · have htake : (names ++ loc).take k ≠ [] := by
          simp only [ne_eq, List.take_eq_nil_iff, List.append_eq_nil_iff, not_or]
          exact ⟨hzero, fun hnil => by simp [hnil.1] at hlt⟩
        exact ⟨_, hs.directory_above htake (by simpa using h)⟩
    obtain ⟨n, hn⟩ := hsome
    refine List.mem_map.mpr ⟨_, hs.mem_iff.mpr ⟨?_, hn⟩, rfl⟩
    simp only [ne_eq, List.drop_eq_nil_iff, List.length_append]
    omega
  simpa [above] using (List.subperm_of_subset hnodup hsub).length_le

variable (hd : fs.stat dir = .ok (loc, .directory))
include hd

theorem stat_below (h : fs.node? (names ++ loc) = some .directory)
    (hshort : (dir.below names).bytes.length < pathLimit) :
    fs.stat (dir.below names) = .ok (names ++ loc, .directory) := by
  induction names with
  | nil => exact hd
  | cons name names ih =>
    have hn := hs.isName h
    have hparent := ih (hs.parent_directory h)
      (Nat.lt_trans (Path.length_lt_join hn.toIsWord) hshort)
    have hr : fs.resolve true ((dir.below names).join name) = _ :=
      resolve_join hparent ⟨hn, hshort⟩ (Or.inr fun t ht => by cases h.symm.trans ht)
    refine stat_eq_directory_iff.mpr ⟨_, _, hr, ?_⟩
    rw [← List.cons_append, h]
    rfl

theorem openRead_below (h : fs.node? (name :: names ++ loc) = some (.file id))
    (hshort : (dir.below (name :: names)).bytes.length < pathLimit) :
    fs.openRead (dir.below (name :: names)) = .ok (.file id) := by
  have hn := hs.isName h
  have hparent := hs.stat_below hd (hs.parent_directory h)
    (Nat.lt_trans (Path.length_lt_join hn.toIsWord) hshort)
  exact openRead_join hparent ⟨hn, hshort⟩ h

end Sound
end FileSystem
end CaptureExport
