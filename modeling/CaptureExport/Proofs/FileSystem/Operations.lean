import CaptureExport.Proofs.FileSystem.Join

/-! # Operations on entries

What it takes for a file to be opened, created or unlinked, first at any path and then at a name
below a directory. Each of them leaves directories and links where they are.
-/

namespace CaptureExport.FileSystem

variable {fs gs : FileSystem} {p dir : Path} {parent d loc : Location} {name : Name} {node : Node}
  {id : FileId} {b : Bytes} {s : Bool}

theorem createNew_eq_ok (h : fs.createNew p = .ok (gs, id)) :
    ∃ parent name, fs.resolve false p = .ok (.entry parent name none, false) ∧
      fs.node? (name :: parent) = none ∧ gs = (fs.insertFile (name :: parent) []).1 ∧
      id = fs.contents.length := by
  unfold createNew at h
  split at h
  · cases h
  · cases h
  · rename_i parent name node slash hr
    split at h
    · cases h
    · rename_i hslash
      obtain rfl : slash = false := by simpa using hslash
      cases node with
      | none =>
        cases h
        exact ⟨parent, name, hr, (resolve_entry hr).symm, rfl, rfl⟩
      | some n => cases h

theorem unlink_eq_ok (h : fs.unlink p = .ok gs) :
    ∃ parent name node, fs.resolve false p = .ok (.entry parent name (some node), false) ∧
      fs.node? (name :: parent) = some node ∧ node ≠ .directory ∧
      gs = fs.erase (name :: parent) := by
  unfold unlink at h
  split at h
  · cases h
  · cases h
  · cases h
  · cases h
  · rename_i parent name node slash hnode hr
    split at h
    · cases h
    · rename_i hslash
      obtain rfl : slash = false := by simpa using hslash
      cases h
      exact ⟨parent, name, node, hr, (resolve_entry hr).symm, hnode, rfl⟩

theorem openRead_eq_file (h : fs.openRead p = .ok (.file id)) :
    ∃ parent name, fs.resolve true p = .ok (.entry parent name (some (.file id)), false) ∧
      fs.node? (name :: parent) = some (.file id) := by
  unfold openRead stat locate at h
  cases hr : fs.resolve true p with
  | error e => simp [hr] at h
  | ok r =>
    obtain ⟨spot, slash⟩ := r
    cases spot with
    | directory loc => simp [hr] at h
    | entry parent name node =>
      cases node with
      | none => simp [hr] at h
      | some n =>
        cases slash <;> cases n <;> simp [hr] at h
        subst h
        exact ⟨parent, name, rfl, (resolve_entry hr).symm⟩

theorem openRead_of_resolve
    (h : fs.resolve true p = .ok (.entry parent name (some (.file id)), false)) :
    fs.openRead p = .ok (.file id) := by
  simp [openRead, stat, locate, h]

theorem readFile_eq_ok (h : fs.readFile p = .ok b) :
    ∃ id, fs.openRead p = .ok (.file id) ∧ fs.content id = b := by
  unfold readFile at h
  split at h
  · cases h
  · rename_i opened ho
    cases opened with
    | directory => cases h
    | file id =>
      cases h
      exact ⟨id, ho, rfl⟩

theorem readFile_of_openRead (h : fs.openRead p = .ok (.file id)) :
    fs.readFile p = .ok (fs.content id) := by
  simp [readFile, h, readOpened]

section Join

variable (hd : fs.stat dir = .ok (d, .directory))
include hd

theorem createNew_join (hn : Admits dir name) (hfree : fs.node? (name :: d) = none) :
    fs.createNew (dir.join name) = .ok (fs.insertFile (name :: d) []) := by
  simp [createNew, resolve_join hd hn (Or.inl rfl), hfree]

theorem createNew_join_eq_ok (hw : IsWord name) (h : fs.createNew (dir.join name) = .ok (gs, id)) :
    Admits dir name ∧ fs.node? (name :: d) = none ∧
      gs = (fs.insertFile (name :: d) []).1 ∧ id = fs.contents.length := by
  obtain ⟨parent, n, hr, hfree, hgs, hid⟩ := createNew_eq_ok h
  by_cases hn : Admits dir name
  · rw [resolve_join hd hn (Or.inl rfl)] at hr
    obtain ⟨rfl, rfl, -⟩ : d = parent ∧ name = n ∧ _ := by simpa using hr
    exact ⟨hn, hfree, hgs, hid⟩
  · rw [resolve_join_too_long hd hw hn] at hr
    cases hr

theorem unlink_join (hn : Admits dir name) (hf : fs.node? (name :: d) = some (.file id)) :
    fs.unlink (dir.join name) = .ok (fs.erase (name :: d)) := by
  simp [unlink, resolve_join hd hn (Or.inl rfl), hf]

theorem openRead_join (hn : Admits dir name) (hf : fs.node? (name :: d) = some (.file id)) :
    fs.openRead (dir.join name) = .ok (.file id) := by
  have hl : ∀ t, fs.node? (name :: d) ≠ some (.link t) := by simp [hf]
  have hr : fs.resolve true (dir.join name) = _ := resolve_join hd hn (Or.inr hl)
  rw [hf] at hr
  exact openRead_of_resolve hr

theorem hasPath_join (hw : IsWord name) (hl : ∀ t, fs.node? (name :: d) ≠ some (.link t)) :
    fs.hasPath (dir.join name) = true ↔ Admits dir name ∧ (fs.node? (name :: d)).isSome := by
  unfold hasPath stat locate
  by_cases hn : Admits dir name
  · rw [resolve_join hd hn (Or.inr hl)]
    cases fs.node? (name :: d) <;> simp [Except.isOk, Except.toBool, hn]
  · rw [resolve_join_too_long hd hw hn]
    simp [Except.isOk, Except.toBool, hn]

end Join

/-! ## Links at the end -/

theorem leg_false_of_arrived {base : Location} {names : List Name} {spot : Spot}
    (h : leg fs true base names = .arrived spot) : leg fs false base names = .arrived spot := by
  fun_induction leg fs true base names <;> grind [leg]

theorem leg_false_of_link {base : Location} {names rest : List Name} {t : Path}
    (h : leg fs true base names = .link d t rest) :
    (rest ≠ [] ∧ leg fs false base names = .link d t rest) ∨
      ∃ name, leg fs false base names = .arrived (.entry d name (some (.link t))) := by
  fun_induction leg fs true base names <;> grind [leg]

theorem walk_false {base : Location} {names : List Name} {spot : Spot} {b : ℕ} {slash : Bool}
    (h : walk fs true b base names slash = .ok (spot, s)) :
    walk fs false b base names slash = .ok (spot, s) ∨ ∃ parent name t,
      walk fs false b base names slash = .ok (.entry parent name (some (.link t)), slash) := by
  fun_induction walk fs true b base names slash with
  | case1 b base names slash found harrived =>
    obtain ⟨rfl, rfl⟩ : found = spot ∧ slash = s := by simpa using h
    exact Or.inl (walk_of_arrived (leg_false_of_arrived harrived))
  | case2 => cases h
  | case3 => cases h
  | case4 base names slash at' t rest hlink b ih =>
    rcases leg_false_of_link hlink with ⟨hrest, hleg⟩ | ⟨name, hleg⟩
    · have hempty : rest.isEmpty = false := by simp [hrest]
      rw [walk_of_link hleg]
      rw [hempty, Bool.false_and, Bool.or_false] at ih h ⊢
      exact ih h
    · exact Or.inr ⟨at', name, t, walk_of_arrived hleg⟩

theorem linkStat_of_stat (h : fs.stat p = .ok (d, .directory)) :
    fs.linkStat p = .ok (d, .directory) ∨ ∃ loc t, fs.linkStat p = .ok (loc, .link t) := by
  unfold linkStat
  cases hsep : endsInSeparator p with
  | true => exact Or.inl h
  | false =>
    obtain ⟨spot, s, hr, hspot⟩ := stat_eq_directory_iff.mp h
    obtain ⟨h₀, hne, hlen, hw⟩ := resolve_eq_ok hr
    rcases walk_false hw with hw | ⟨parent, name, t, hw⟩
    · left
      rw [← resolve_of_walk h₀ hne hlen] at hw
      cases spot with
      | directory loc =>
        cases hspot
        simp [locate, hw]
      | entry parent name node =>
        cases node with
        | none => cases hspot
        | some n =>
          cases n with
          | directory =>
            cases hspot
            simp [locate, hw]
          | file id => cases hspot
          | link t => cases hspot
    · right
      rw [← resolve_of_walk h₀ hne hlen, hsep] at hw
      exact ⟨name :: parent, t, by simp [locate, hw]⟩

/-! ## Places -/

/-- The location of the entry that a path leads to, whether something stands there or not. -/
def place? (fs : FileSystem) (follow : Bool) (p : Path) : Option Location :=
  match fs.resolve follow p with
  | .ok (.entry parent name _, _) => some (name :: parent)
  | _ => none

theorem place?_of_resolve {follow : Bool} {node : Option Node}
    (h : fs.resolve follow p = .ok (.entry parent name node, s)) :
    fs.place? follow p = some (name :: parent) := by
  simp [place?, h]

theorem place?_eq_some {follow : Bool} (h : fs.place? follow p = some loc) :
    ∃ parent name s, loc = name :: parent ∧
      fs.resolve follow p = .ok (.entry parent name (fs.node? loc), s) := by
  unfold place? at h
  split at h
  · rename_i parent name node s hr
    cases h
    exact ⟨parent, name, s, rfl, (resolve_entry hr) ▸ hr⟩
  · cases h

/-- A file that can be read has an entry, which is a link or the file itself. -/
theorem node?_of_readFile (h : fs.readFile p = .ok b) (hp : fs.place? false p = some loc) :
    fs.node? loc ≠ none ∧ ∀ id, fs.node? loc = some (.file id) → fs.content id = b := by
  obtain ⟨id, ho, hb⟩ := readFile_eq_ok h
  obtain ⟨parent, name, hr, -⟩ := openRead_eq_file ho
  obtain ⟨parent', name', s, rfl, hr'⟩ := place?_eq_some hp
  constructor
  · intro hn
    rw [hn] at hr'
    have ht := resolve_true hr' (by simp [Spot.NoLink])
    rw [hr] at ht
    simp at ht
  · intro i hi
    rw [hi] at hr'
    have ht := resolve_true hr' (by simp [Spot.NoLink])
    rw [hr] at ht
    obtain ⟨⟨-, -, rfl⟩, -⟩ : (parent = parent' ∧ name = name' ∧ id = i) ∧ false = s := by
      simpa using ht
    exact hb

/-! ## What stays -/

theorem narrows_insertFile (hfree : fs.node? loc = none) :
    Narrows fs (fs.insertFile loc b).1 := by
  refine ⟨fun l => ?_, fun l t h => ?_, rfl⟩
  · rw [node?_insertFile hfree]
    by_cases hl : l = loc <;> simp [hl, hfree]
  · rw [node?_insertFile hfree] at h
    by_cases hl : l = loc
    · simp [hl] at h
    · simpa [hl] using h

theorem narrows_erase (hn : fs.node? loc ≠ some .directory) : Narrows fs (fs.erase loc) := by
  refine ⟨fun l => ?_, fun l t h => ?_, rfl⟩
  · rw [node?_erase]
    by_cases hl : l = loc ∧ l ≠ []
    · rw [if_pos hl, hl.1]
      simp [hn]
    · rw [if_neg hl]
  · rw [node?_erase] at h
    split at h
    · cases h
    · exact h

theorem insertFile_narrows (hfree : fs.node? loc = none) :
    Narrows (fs.insertFile loc b).1 fs := by
  refine ⟨fun l => ((narrows_insertFile hfree).directory l).symm, fun l t h => ?_, rfl⟩
  rw [node?_insertFile hfree, if_neg, h]
  rintro rfl
  rw [hfree] at h
  cases h

theorem setContent_narrows : Narrows (fs.setContent id b) fs :=
  ⟨fun l => by rw [node?_setContent], fun l t h => by rw [node?_setContent, h], rfl⟩

theorem erase_narrows (hn : fs.node? loc = some (.file id)) : Narrows (fs.erase loc) fs := by
  have hd : fs.node? loc ≠ some .directory := by simp [hn]
  refine ⟨fun l => ((narrows_erase hd).directory l).symm, fun l t h => ?_, rfl⟩
  rw [node?_erase, if_neg, h]
  rintro ⟨rfl, -⟩
  rw [hn] at h
  cases h

end CaptureExport.FileSystem
