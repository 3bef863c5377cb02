import CaptureExport.Proofs.FileSystem.Operations

/-! # Files that are added

As long as nothing is removed and only files are added, a path that leads to something goes on to
lead to it. A path without a separator at its end leads to the file that stands at its place, and
is named like it.
-/

namespace CaptureExport.FileSystem

variable {fs gs : FileSystem} {follow slash s : Bool} {base d loc : Location}
  {names rest : List Name} {spot : Spot} {p t : Path} {b : ℕ} {id : FileId}

/-! ## Separators at the end -/

theorem walk_separator (h : walk fs follow b base names slash = .ok (spot, s))
    (hslash : slash = true) : s = true := by
  fun_induction walk fs follow b base names slash with
  | case1 b base names slash found harrived =>
    obtain ⟨rfl, rfl⟩ : found = spot ∧ slash = s := by simpa using h
    exact hslash
  | case2 => cases h
  | case3 => cases h
  | case4 base names slash at' t rest hlink b ih => exact ih h (by simp [hslash])

theorem leg_false_rest (h : leg fs false base names = .link d t rest) : rest ≠ [] := by
  fun_induction leg fs false base names <;> grind

theorem walk_false_separator (h : walk fs false b base names slash = .ok (spot, s)) :
    s = slash := by
  fun_induction walk fs false b base names slash with
  | case1 b base names slash found harrived =>
    obtain ⟨rfl, rfl⟩ : found = spot ∧ slash = s := by simpa using h
    rfl
  | case2 => cases h
  | case3 => cases h
  | case4 base names slash at' t rest hlink b ih =>
    rw [ih h, List.isEmpty_eq_false_iff.mpr (leg_false_rest hlink), Bool.false_and, Bool.or_false]

theorem walk_noLink (h : walk fs true b base names slash = .ok (spot, s)) : spot.NoLink := by
  have hleg {base : Location} {names : List Name} {spot : Spot}
      (h : leg fs true base names = .arrived spot) : spot.NoLink := by
    fun_induction leg fs true base names <;> grind [Spot.NoLink]
  fun_induction walk fs true b base names slash with
  | case1 b base names slash found harrived =>
    obtain ⟨rfl, rfl⟩ : found = spot ∧ slash = s := by simpa using h
    exact hleg harrived
  | case2 => cases h
  | case3 => cases h
  | case4 base names slash at' t rest hlink b ih => exact ih h

/-! ## The place of a file -/

theorem fileName?_of_place (hs : fs.Sound) (h : fs.place? false p = some loc) :
    ∃ name parent, loc = name :: parent ∧ IsName name ∧ p.fileName? = some name := by
  obtain ⟨parent, name, s, rfl, hr⟩ := place?_eq_some h
  obtain ⟨-, hlast, hdot, hdotDot, -⟩ :=
    walk_entry hs (hs.start_directory p) (resolve_eq_ok hr).2.2.2
  obtain ⟨front, hfront⟩ := List.getLast?_eq_some_iff.mp hlast
  exact ⟨name, parent, rfl, (resolve_isName hs hr).2,
    Path.fileName?_of_fields hfront hdot hdotDot⟩

theorem linkStat_eq_file_iff : fs.linkStat p = .ok (loc, .file id) ↔
    endsInSeparator p = false ∧ fs.place? false p = some loc ∧
      fs.node? loc = some (.file id) := by
  unfold linkStat locate
  constructor
  · intro h
    cases hr : fs.resolve (endsInSeparator p) p with
    | error e => simp [hr] at h
    | ok r =>
      obtain ⟨spot, s⟩ := r
      have hw := (resolve_eq_ok hr).2.2.2
      cases spot with
      | directory l => simp [hr] at h
      | entry parent name node =>
        obtain rfl := resolve_entry hr
        cases hsep : endsInSeparator p with
        | true =>
          obtain rfl := walk_separator hw hsep
          grind
        | false =>
          rw [hsep] at hr
          exact ⟨rfl, by grind [place?_of_resolve], by grind⟩
  · rintro ⟨hsep, hplace, hn⟩
    obtain ⟨parent, name, s, rfl, hr⟩ := place?_eq_some hplace
    obtain rfl : s = false := (walk_false_separator (resolve_eq_ok hr).2.2.2).trans hsep
    simp [hsep, hr, hn]

theorem hasPath_iff : fs.hasPath p = true ↔ ∃ r, fs.stat p = .ok r := by
  unfold hasPath
  cases fs.stat p <;> simp [Except.isOk, Except.toBool]

theorem hasPath_of_place (hsep : endsInSeparator p = false) (hp : fs.place? false p = some loc)
    (hn : fs.node? loc = some (.file id)) : fs.hasPath p = true := by
  obtain ⟨parent, name, s, rfl, hr⟩ := place?_eq_some hp
  obtain rfl : s = false := (walk_false_separator (resolve_eq_ok hr).2.2.2).trans hsep
  rw [hn] at hr
  simp [hasPath, stat, locate, resolve_true hr (by simp [Spot.NoLink]), Except.isOk,
    Except.toBool]

theorem stat_of_linkStat (h : fs.linkStat p = .ok (d, .directory)) :
    fs.stat p = .ok (d, .directory) := by
  unfold linkStat at h
  cases hsep : endsInSeparator p with
  | true =>
    rw [hsep] at h
    exact h
  | false =>
    rw [hsep] at h
    unfold locate at h
    cases hr : fs.resolve false p with
    | error e => simp [hr] at h
    | ok r =>
      obtain ⟨spot, s⟩ := r
      have hspot : spot.directory? = some d ∧ spot.NoLink := by
        cases spot <;> grind [Spot.directory?, Spot.NoLink]
      exact stat_eq_directory_iff.mpr ⟨spot, s, resolve_true hr hspot.2, hspot.1⟩

theorem Narrows.place_eq (hn : Narrows fs gs) (h : gs.place? false p = some loc) :
    fs.place? false p = some loc := by
  obtain ⟨parent, name, s, rfl, hr⟩ := place?_eq_some h
  exact place?_of_resolve (hn.resolve_eq hr (Or.inl rfl))

/-- A path with links followed leads where it did if the end of its walk looks the same. -/
theorem Narrows.resolve_of_on (hn : Narrows fs gs) (hr : gs.resolve true p = .ok (spot, s))
    (hsame : spot.on fs = spot) : fs.resolve true p = .ok (spot, s) := by
  rw [← hsame]
  refine hn.resolve_eq hr (Or.inr ?_)
  rw [hsame]
  exact walk_noLink (resolve_eq_ok hr).2.2.2

/-! ## Growth -/

/-- Nothing is removed, and whatever is new is a file. -/
structure Adds (fs gs : FileSystem) : Prop where
  kept : ∀ loc node, fs.node? loc = some node → gs.node? loc = some node
  fresh : ∀ loc node, gs.node? loc = some node →
    fs.node? loc = some node ∨ (fs.node? loc = none ∧ ∃ id, node = .file id)
  working : gs.working = fs.working

namespace Adds

variable (h : Adds fs gs)
include h

theorem narrows : Narrows fs gs := by
  refine ⟨fun loc => ⟨fun hd => ?_, h.kept loc _⟩, fun loc t ht => ?_, h.working⟩
  · rcases h.fresh loc _ hd with hd | ⟨-, id, hf⟩
    · exact hd
    · cases hf
  · rcases h.fresh loc _ ht with ht | ⟨-, id, hf⟩
    · exact ht
    · cases hf

theorem narrowed : Narrows gs fs :=
  ⟨fun loc => (h.narrows.directory loc).symm, fun loc _ ht => h.kept loc _ ht, h.working.symm⟩

theorem place_iff : gs.place? false p = some loc ↔ fs.place? false p = some loc :=
  ⟨h.narrows.place_eq, h.narrowed.place_eq⟩

theorem stat_directory_iff :
    gs.stat p = .ok (d, .directory) ↔ fs.stat p = .ok (d, .directory) :=
  ⟨h.narrows.stat_directory, h.narrowed.stat_directory⟩

theorem hasPath (hp : fs.hasPath p = true) : gs.hasPath p = true := by
  unfold FileSystem.hasPath stat locate at hp ⊢
  cases hr : fs.resolve true p with
  | error e => simp [hr, Except.isOk, Except.toBool] at hp
  | ok r =>
    obtain ⟨spot, s⟩ := r
    have hon : spot.on gs = spot → gs.resolve true p = .ok (spot, s) := h.narrowed.resolve_of_on hr
    rw [hr] at hp
    cases spot with
    | directory l => simp [hon rfl, Except.isOk, Except.toBool]
    | entry parent name node =>
      obtain rfl := resolve_entry hr
      cases hn : fs.node? (name :: parent) with
      | none => simp [hn, Except.isOk, Except.toBool] at hp
      | some n =>
        rw [hon (by simp [Spot.on, hn, h.kept _ _ hn])]
        exact hp

end Adds

def created (fs gs : FileSystem) : List Location :=
  (gs.entries.map Prod.fst).filter fun loc => (fs.node? loc).isNone

theorem mem_created_iff (hs : gs.Sound) :
    loc ∈ created fs gs ↔ fs.standing? loc = none ∧ gs.standing? loc ≠ none := by
  simp only [created, List.mem_filter, List.mem_map, Option.isNone_iff_eq_none, ne_eq,
    standing?_eq_none_iff]
  constructor
  · rintro ⟨⟨⟨l, node⟩, he, rfl⟩, hfree⟩
    exact ⟨hfree, by simp [(hs.mem_iff.mp he).2]⟩
  · rintro ⟨hfree, hstands⟩
    obtain ⟨node, hn⟩ := Option.ne_none_iff_exists'.mp hstands
    exact ⟨⟨_, hs.mem_iff.mpr ⟨ne_nil_of_node?_eq_none hfree, hn⟩, rfl⟩, hfree⟩

/-- What a path leads to has been there before, or it has been created. -/
theorem Adds.stat_cases (h : Adds fs gs) (hs : gs.Sound) {node : Node}
    (hstat : gs.stat p = .ok (loc, node)) : fs.hasPath p = true ∨ loc ∈ created fs gs := by
  unfold FileSystem.hasPath stat locate at *
  cases hr : gs.resolve true p with
  | error e => simp [hr] at hstat
  | ok r =>
    obtain ⟨spot, s⟩ := r
    have hon : spot.on fs = spot → fs.resolve true p = .ok (spot, s) := h.narrows.resolve_of_on hr
    rw [hr] at hstat
    cases spot with
    | directory l => simp [hon rfl, Except.isOk, Except.toBool]
    | entry parent name found =>
      obtain rfl := resolve_entry hr
      cases hg : gs.node? (name :: parent) with
      | none => simp [hg] at hstat
      | some m =>
        rw [hg] at hstat
        obtain ⟨hfits, rfl⟩ : ¬ (s = true ∧ m ≠ .directory) ∧ name :: parent = loc := by grind
        cases hn : fs.node? (name :: parent) with
        | none => exact Or.inr ((mem_created_iff hs).mpr (by simp [standing?_eq_none_iff, hn, hg]))
        | some n =>
          obtain rfl : n = m := Option.some.inj ((h.kept _ _ hn).symm.trans hg)
          rw [hon (by simp [Spot.on, hg, hn])]
          simp [hg, hfits, Except.isOk, Except.toBool]

end CaptureExport.FileSystem
