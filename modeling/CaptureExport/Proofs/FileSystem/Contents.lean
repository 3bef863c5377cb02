import CaptureExport.Proofs.FileSystem.Operations

/-! # Writing into files

A new content of a file changes where no path leads, and is seen at the location of the file only.
-/

namespace CaptureExport.FileSystem

variable {fs gs : FileSystem} {p : Path} {loc : Location} {id : FileId} {c : Bytes} {e : IoError}

/-! ## Where paths lead -/

theorem leg_setContent (follow : Bool) (base : Location) (names : List Name) :
    leg (fs.setContent id c) follow base names = leg fs follow base names := by
  induction names generalizing base with
  | nil => rfl
  | cons name rest ih => simp only [leg, node?_setContent, ih]

theorem walk_setContent (follow : Bool) (b : ℕ) (base : Location) (names : List Name)
    (slash : Bool) : walk (fs.setContent id c) follow b base names slash =
      walk fs follow b base names slash := by
  induction b generalizing base names slash with
  | zero =>
    rw [walk.eq_def, walk.eq_def fs]
    simp only [leg_setContent]
  | succ b ih =>
    rw [walk.eq_def, walk.eq_def fs]
    simp only [leg_setContent, ih]

@[simp] theorem resolve_setContent (follow : Bool) (p : Path) :
    (fs.setContent id c).resolve follow p = fs.resolve follow p := by
  unfold resolve
  rw [walk_setContent]
  rfl

@[simp] theorem stat_setContent (p : Path) : (fs.setContent id c).stat p = fs.stat p := by
  simp [stat, locate]

@[simp] theorem openRead_setContent (p : Path) :
    (fs.setContent id c).openRead p = fs.openRead p := by
  simp [openRead]

@[simp] theorem openWrite_setContent (p : Path) :
    (fs.setContent id c).openWrite p = fs.openWrite p := by
  simp [openWrite]

/-! ## Open files -/

theorem openWrite_eq_ok (h : fs.openWrite p = .ok id) :
    ∃ loc, fs.stat p = .ok (loc, .file id) ∧ fs.node? loc = some (.file id) := by
  have hread : fs.openRead p = .ok (.file id) := by
    unfold openWrite at h
    unfold openRead
    split at h <;> grind
  obtain ⟨parent, name, hr, hn⟩ := openRead_eq_file hread
  exact ⟨name :: parent, by simp [stat, locate, hr], hn⟩

theorem overwrite_of_openWrite (h : fs.openWrite p = .ok id) (c : Bytes) :
    fs.overwrite p c = .ok (fs.setContent id c) := by
  rw [overwrite, h]

theorem overwrite_of_error (h : fs.openWrite p = .error e) (c : Bytes) :
    fs.overwrite p c = .error e := by
  rw [overwrite, h]

/-! ## What is seen -/

/-- A path leads to the new content or to what it has led to before. -/
theorem readFile_setContent (p : Path) :
    (fs.setContent id c).readFile p = .ok c ∨ (fs.setContent id c).readFile p = fs.readFile p := by
  unfold readFile
  rw [openRead_setContent]
  cases ho : fs.openRead p with
  | error e => exact Or.inr rfl
  | ok opened =>
    cases opened with
    | directory => exact Or.inr rfl
    | file i =>
      simp only [readOpened, content_setContent]
      split
      · exact Or.inl rfl
      · exact Or.inr rfl

theorem standing?_setContent (hs : fs.Sound) (hn : fs.node? loc = some (.file id)) (l : Location) :
    (fs.setContent id c).standing? l = if l = loc then some (.file c) else fs.standing? l := by
  split
  · rename_i hl
    subst hl
    rw [standing?_eq_file_iff]
    exact ⟨id, by simpa using hn, by rw [content_setContent, if_pos ⟨rfl, hs.id_lt hn⟩]⟩
  · rename_i hl
    refine standing?_eq_of_node? (node?_setContent l) fun i hi => ?_
    rw [content_setContent, if_neg]
    rintro ⟨rfl, -⟩
    exact hl (hs.eq_of_file hi hn)

end CaptureExport.FileSystem
