import CaptureExport.Proofs.FileSystem.Join
import CaptureExport.Proofs.FileSystem.Nodes
import CaptureExport.Proofs.Watch.Arrivals

/-! # What a watch reports

Every step but a rename either adds entries behind all others or removes some. A name that is not
in the watched directory before a step and is there after it is therefore reported.
-/

namespace CaptureExport

namespace FileSystem

variable {fs gs : FileSystem} {p q : Path} {loc : Location}

theorem exists_entry (h : (fs.node? loc).isSome) (hne : loc ≠ []) :
    ∃ node, (loc, node) ∈ fs.entries := by
  rw [node?, if_neg hne, Option.isSome_map, List.find?_isSome] at h
  obtain ⟨⟨l, node⟩, he, hl⟩ := h
  obtain rfl : l = loc := by simpa using hl
  exact ⟨node, he⟩

theorem prefix_writeFile {b : Bytes} (h : fs.writeFile p b = .ok gs) :
    fs.entries <+: gs.entries := by
  unfold writeFile openOrCreate at h
  grind [insertFile, setContent]

theorem prefix_makeDirectory (h : fs.makeDirectory p = .ok gs) : fs.entries <+: gs.entries := by
  unfold makeDirectory at h
  grind [insert]

theorem prefix_makeDirectories {n : ℕ} (h : fs.makeDirectories n p = .ok gs) :
    fs.entries <+: gs.entries := by
  induction n generalizing p gs with
  | zero =>
    unfold makeDirectories at h
    grind [prefix_makeDirectory]
  | succ n ih =>
    unfold makeDirectories at h
    cases hp : p.parent? with
    | none => grind [prefix_makeDirectory]
    | some above =>
      simp only [hp] at h
      cases habove : fs.makeDirectories n above with
      | error e => grind [prefix_makeDirectory]
      | ok hs =>
        have hfirst : fs.entries <+: hs.entries := ih habove
        have hlast (hd : hs.makeDirectory p = .ok gs) : fs.entries <+: gs.entries :=
          hfirst.trans (prefix_makeDirectory hd)
        grind [prefix_makeDirectory]

theorem prefix_makeLink (h : fs.makeLink p q = .ok gs) : fs.entries <+: gs.entries := by
  unfold makeLink at h
  grind [insert]

theorem subset_unlink (h : fs.unlink p = .ok gs) : gs.entries ⊆ fs.entries := by
  unfold unlink at h
  grind [erase, List.filter_subset]

theorem subset_removeTree (h : fs.removeTree p = .ok gs) : gs.entries ⊆ fs.entries := by
  unfold removeTree at h
  grind [eraseWithin, List.filter_subset, subset_unlink]

/-- A step that is no rename adds entries behind all others or removes some. -/
theorem entries_apply {c : Step} (hc : ∀ p q, c ≠ .rename p q) (h : fs.apply c = .ok gs) :
    fs.entries <+: gs.entries ∨ gs.entries ⊆ fs.entries := by
  cases c with
  | write p b => exact Or.inl (prefix_writeFile h)
  | mkdir p => exact Or.inl (prefix_makeDirectories h)
  | symlink p q => exact Or.inl (prefix_makeLink h)
  | rm p => exact Or.inr (subset_unlink h)
  | rmdir p => exact Or.inr (subset_removeTree h)
  | rename p q => exact absurd rfl (hc p q)

end FileSystem

namespace Watch

open FileSystem (Step)

variable {w : Watch} {fs gs : FileSystem} {dir : Location} {name : Name} {c : Step}

theorem mem_appeared (hc : ∀ p q, c ≠ .rename p q) (h : fs.apply c = .ok gs)
    (hbefore : fs.node? (name :: dir) = none) (hafter : (gs.node? (name :: dir)).isSome) :
    name ∈ appeared dir fs gs := by
  obtain ⟨node, hmem⟩ := FileSystem.exists_entry hafter (List.cons_ne_nil _ _)
  have hnew : (name :: dir, node) ∉ fs.entries := fun hold =>
    FileSystem.Sound.not_mem_keys hbefore (List.mem_map_of_mem hold)
  rcases FileSystem.entries_apply hc h with ⟨new, hentries⟩ | hsubset
  · rw [← hentries] at hmem
    refine List.mem_filterMap.mpr ⟨(name :: dir, node), ?_, by simp [nameIn]⟩
    rw [← hentries, List.drop_left]
    exact (List.mem_append.mp hmem).resolve_left hnew
  · exact absurd (hsubset hmem) hnew

/-- A sentinel comes to a directory: it is created there, or something else is renamed to it. -/
def SentinelComes (fs : FileSystem) (dir : Location) (c : Step) : Prop :=
  let sentinel := Utf8.ofString sentinelName :: dir
  match c with
  | .rename p q => ∃ source gs, fs.apply c = .ok gs ∧ entryOf fs p = some source ∧
      entryOf fs q = some sentinel ∧ source ≠ sentinel
  | _ => fs.node? sentinel = none ∧ ((fs.after c).node? sentinel).isSome

theorem isSentinel_join (p : Path) : (p.join (Utf8.ofString sentinelName)).isSentinel = true := by
  have hword : FileSystem.IsWord (Utf8.ofString sentinelName) := by decide +kernel
  exact beq_iff_eq.mpr (Path.fileName?_join hword)

theorem reports_created (hplace : w.place = some dir) (hc : ∀ p q, c ≠ .rename p q)
    (hbefore : fs.node? (name :: dir) = none) (hafter : ((fs.after c).node? (name :: dir)).isSome) :
    .change .created [w.path.join name] ∈ (w.observe fs c).1 := by
  cases h : fs.apply c with
  | error e => simp [FileSystem.after, h, hbefore] at hafter
  | ok gs =>
    simp only [FileSystem.after, h] at hafter
    have hmem : .change .created [w.path.join name] ∈
        (appeared dir fs gs).map fun name => Notice.change .created [w.path.join name] :=
      List.mem_map_of_mem (mem_appeared hc h hbefore hafter)
    simpa only [observe, hplace, h] using hmem

theorem reports_renamed {p q : Path} {source : Location} (hplace : w.place = some dir)
    (h : fs.apply (.rename p q) = .ok gs) (hsource : entryOf fs p = some source)
    (htarget : entryOf fs q = some (name :: dir)) (hne : source ≠ name :: dir) :
    .change .renamedTo [w.path.join name] ∈ (w.observe fs (.rename p q)).1 := by
  simp only [observe, hplace, h, hsource, htarget, if_neg hne, renameNotices, nameIn, if_true]
  split <;> simp_all

theorem reports_sentinel (hplace : w.place = some dir) (h : SentinelComes fs dir c) :
    ∃ n ∈ (w.observe fs c).1, n.hasSentinel = true := by
  have hcreated (hc : ∀ p q, c ≠ .rename p q)
      (h : fs.node? (Utf8.ofString sentinelName :: dir) = none ∧
        ((fs.after c).node? (Utf8.ofString sentinelName :: dir)).isSome) :
      ∃ n ∈ (w.observe fs c).1, n.hasSentinel = true :=
    ⟨_, reports_created hplace hc h.1 h.2, by simp [Notice.hasSentinel, Notice.announced,
      isSentinel_join]⟩
  cases c with
  | rename p q =>
    obtain ⟨source, gs, happly, hsource, htarget, hne⟩ := h
    exact ⟨_, reports_renamed hplace happly hsource htarget hne, by
      simp [Notice.hasSentinel, Notice.announced, isSentinel_join]⟩
  | write | mkdir | rm | rmdir | symlink => exact hcreated (by simp) h

end Watch
end CaptureExport
