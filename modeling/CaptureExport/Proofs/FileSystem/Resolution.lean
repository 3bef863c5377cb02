import CaptureExport.FileSystem.Resolve
import CaptureExport.Proofs.FileSystem.Nodes

/-! # Where paths lead

The entry that a path leads to carries the node at its location. As long as directories stay as
they are and no link is added, a path that leads somewhere leads where it has always led. A name
below a path to a directory leads to an entry of that directory.
-/

namespace CaptureExport.FileSystem

variable {fs gs : FileSystem} {follow slash s : Bool} {base parent d : Location} {name : Name}
  {names rest : List Name} {node : Option Node} {spot : Spot} {p : Path} {b : ℕ}

def Spot.on (fs : FileSystem) : Spot → Spot
  | .directory loc => .directory loc
  | .entry parent name _ => .entry parent name (fs.node? (name :: parent))

def Spot.directory? : Spot → Option Location
  | .directory loc => some loc
  | .entry parent name (some .directory) => some (name :: parent)
  | .entry _ _ _ => none

def Spot.NoLink (spot : Spot) : Prop := ∀ parent name t, spot ≠ .entry parent name (some (.link t))

theorem walk_of_arrived (h : leg fs follow base names = .arrived spot) :
    walk fs follow b base names slash = .ok (spot, slash) := by
  unfold walk
  simp only [h]

theorem walk_of_link {t : Path} (h : leg fs follow base names = .link d t rest) :
    walk fs follow (b + 1) base names slash =
      walk fs follow b (if t.isAbsolute then [] else d) (t.fields ++ rest)
        (slash || (rest.isEmpty && endsInSeparator t)) := by
  rw [walk.eq_def]
  simp only [h]

theorem leg_on (h : leg fs follow base names = .arrived spot) : spot.on fs = spot := by
  fun_induction leg fs follow base names <;> grind [Spot.on]

theorem walk_on (h : walk fs follow b base names slash = .ok (spot, s)) : spot.on fs = spot := by
  fun_induction walk fs follow b base names slash <;> grind [leg_on]

theorem resolve_eq_ok (h : fs.resolve follow p = .ok (spot, s)) :
    p.bytes.contains 0 = false ∧ p.bytes ≠ [] ∧ p.bytes.length < pathLimit ∧
      walk fs follow linkLimit (if p.isAbsolute then [] else fs.working) p.fields
        (endsInSeparator p) = .ok (spot, s) := by
  unfold resolve at h
  grind

theorem resolve_of_walk (h₀ : p.bytes.contains 0 = false) (hne : p.bytes ≠ [])
    (hlen : p.bytes.length < pathLimit) : fs.resolve follow p =
      walk fs follow linkLimit (if p.isAbsolute then [] else fs.working) p.fields
        (endsInSeparator p) := by
  unfold resolve
  grind

theorem resolve_entry (h : fs.resolve follow p = .ok (.entry parent name node, s)) :
    node = fs.node? (name :: parent) := by
  have hw := walk_on (resolve_eq_ok h).2.2.2
  simp only [Spot.on, Spot.entry.injEq, true_and] at hw
  exact hw.symm

/-- Changes after which a path leads nowhere else: directories are as before, and every link was
there before. -/
structure Narrows (fs gs : FileSystem) : Prop where
  directory : ∀ loc, gs.node? loc = some .directory ↔ fs.node? loc = some .directory
  link : ∀ loc t, gs.node? loc = some (.link t) → fs.node? loc = some (.link t)
  working : gs.working = fs.working

theorem Narrows.refl (fs : FileSystem) : Narrows fs fs := ⟨fun _ => Iff.rfl, fun _ _ h => h, rfl⟩

theorem Narrows.trans {hs : FileSystem} (h : Narrows fs gs) (h' : Narrows gs hs) :
    Narrows fs hs :=
  ⟨fun loc => (h'.directory loc).trans (h.directory loc),
    fun loc t ht => h.link loc t (h'.link loc t ht), h'.working.trans h.working⟩

theorem Narrows.leg_arrived (hn : Narrows fs gs)
    (h : gs.leg follow base names = .arrived spot) (hl : follow = false ∨ (spot.on fs).NoLink) :
    fs.leg follow base names = .arrived (spot.on fs) := by
  induction names generalizing base with
  | nil => grind [leg, Spot.on]
  | cons name rest ih =>
    simp only [leg] at h ⊢
    cases hg : gs.node? (name :: base) with
    | none =>
      cases hf : fs.node? (name :: base) with
      | none => grind [Spot.on]
      | some n => cases n <;> grind [Spot.on, Spot.NoLink]
    | some n =>
      cases n with
      | directory => grind [Spot.on, hn.directory (name :: base)]
      | file id =>
        cases hf : fs.node? (name :: base) with
        | none => grind [Spot.on]
        | some n => cases n <;> grind [Spot.on, Spot.NoLink]
      | link t => grind [Spot.on, hn.link (name :: base) t hg]

theorem Narrows.leg_link (hn : Narrows fs gs) {t : Path} {at' : Location}
    (h : gs.leg follow base names = .link at' t rest) :
    fs.leg follow base names = .link at' t rest := by
  induction names generalizing base with
  | nil => cases h
  | cons name names ih =>
    simp only [leg] at h ⊢
    cases hg : gs.node? (name :: base) with
    | none => grind
    | some n =>
      cases n with
      | directory => grind [hn.directory (name :: base)]
      | file id => grind
      | link t => grind [hn.link (name :: base) t hg]

/-- A path that leads somewhere after the changes has led there before. -/
theorem Narrows.walk_eq (hn : Narrows fs gs)
    (h : gs.walk follow b base names slash = .ok (spot, s))
    (hl : follow = false ∨ (spot.on fs).NoLink) :
    fs.walk follow b base names slash = .ok (spot.on fs, s) := by
  fun_induction walk gs follow b base names slash with
  | case1 b base names slash found harrived =>
    obtain ⟨rfl, rfl⟩ : found = spot ∧ slash = s := by simpa using h
    exact walk_of_arrived (hn.leg_arrived harrived hl)
  | case2 => cases h
  | case3 => cases h
  | case4 base names slash at' t rest hlink b ih =>
    rw [walk_of_link (hn.leg_link hlink)]
    exact ih h

theorem Narrows.resolve_eq (hn : Narrows fs gs) (h : gs.resolve follow p = .ok (spot, s))
    (hl : follow = false ∨ (spot.on fs).NoLink) :
    fs.resolve follow p = .ok (spot.on fs, s) := by
  obtain ⟨h₀, hne, hlen, hw⟩ := resolve_eq_ok h
  rw [resolve_of_walk h₀ hne hlen]
  rw [hn.working] at hw
  exact hn.walk_eq hw hl

theorem Narrows.resolve_directory (hn : Narrows fs gs)
    (h : gs.resolve follow p = .ok (spot, s)) (hd : spot.directory? = some d) :
    ∃ spot', fs.resolve follow p = .ok (spot', s) ∧ spot'.directory? = some d := by
  have hon : (spot.on fs).directory? = some d ∧ (spot.on fs).NoLink := by
    have hs := walk_on (resolve_eq_ok h).2.2.2
    cases spot with
    | directory loc => exact ⟨hd, by simp [Spot.on, Spot.NoLink]⟩
    | entry parent name node => grind [Spot.on, Spot.NoLink, Spot.directory?, hn.directory]
  exact ⟨_, hn.resolve_eq h (Or.inr hon.2), hon.1⟩

theorem resolve_true (h : fs.resolve false p = .ok (spot, s)) (hl : spot.NoLink) :
    fs.resolve true p = .ok (spot, s) := by
  have hleg {names base spot} (h : leg fs false base names = .arrived spot)
      (hl : spot.NoLink) : leg fs true base names = .arrived spot := by
    fun_induction leg fs false base names <;> grind [leg, Spot.NoLink]
  have hlink {names base t rest d} (h : leg fs false base names = .link d t rest) :
      leg fs true base names = .link d t rest := by
    fun_induction leg fs false base names <;> grind [leg]
  have hwalk {b base names slash} (h : walk fs false b base names slash = .ok (spot, s)) :
      walk fs true b base names slash = .ok (spot, s) := by
    fun_induction walk fs false b base names slash with
    | case1 b base names slash found harrived =>
      obtain ⟨rfl, rfl⟩ : found = spot ∧ slash = s := by simpa using h
      exact walk_of_arrived (hleg harrived hl)
    | case2 => cases h
    | case3 => cases h
    | case4 base names slash at' t rest hl' b ih =>
      rw [walk_of_link (hlink hl')]
      exact ih h
  obtain ⟨h₀, hne, hlen, hw⟩ := resolve_eq_ok h
  rw [resolve_of_walk h₀ hne hlen]
  exact hwalk hw

section Sound

variable (hs : fs.Sound) (hb : fs.node? base = some .directory)
include hs hb

theorem Sound.tail_directory : fs.node? base.tail = some .directory := by
  cases base with
  | nil => exact hb
  | cons n l => exact hs.parent_directory hb

theorem leg_entry (h : leg fs follow base names = .arrived (.entry parent name node)) :
    fs.node? parent = some .directory ∧ names.getLast? = some name ∧ name ≠ Path.dot ∧
      name ≠ Path.dotDot ∧ name.length ≤ nameLimit := by
  have htail {l : Location} := @Sound.tail_directory fs l hs
  fun_induction leg fs follow base names <;> grind [List.getLast?_cons]

theorem leg_link {t : Path} (h : leg fs follow base names = .link d t rest) :
    fs.node? d = some .directory ∧
      (follow = false → rest ≠ [] ∧ rest.getLast? = names.getLast?) := by
  have htail {l : Location} := @Sound.tail_directory fs l hs
  have hlast {n : Name} {l : List Name} (hr : rest ≠ []) (h : rest.getLast? = l.getLast?) :
      rest.getLast? = (n :: l).getLast? := by
    cases l with
    | nil => exact absurd (List.getLast?_eq_none_iff.mp h) hr
    | cons a l => exact h
  fun_induction leg fs follow base names <;> grind

theorem walk_entry
    (h : walk fs false b base names slash = .ok (.entry parent name node, s)) :
    fs.node? parent = some .directory ∧ names.getLast? = some name ∧ name ≠ Path.dot ∧
      name ≠ Path.dotDot ∧ name.length ≤ nameLimit := by
  fun_induction walk fs false b base names slash with
  | case1 b base names slash found harrived =>
    obtain ⟨rfl, rfl⟩ : found = .entry parent name node ∧ slash = s := by simpa using h
    exact leg_entry hs hb harrived
  | case2 => cases h
  | case3 => cases h
  | case4 base names slash at' t rest hlink b ih =>
    obtain ⟨hd, hrest⟩ := leg_link hs hb hlink
    obtain ⟨hne, hlast⟩ := hrest rfl
    have hbase : fs.node? (if t.isAbsolute then [] else at') = some .directory := by
      split
      · exact node?_nil
      · exact hd
    rw [← hlast, ← List.getLast?_append_of_ne_nil t.fields hne]
    exact ih hbase h

theorem leg_directory (h : leg fs follow base names = .arrived (.directory d)) :
    fs.node? d = some .directory := by
  have htail {l : Location} := @Sound.tail_directory fs l hs
  fun_induction leg fs follow base names <;> grind

theorem walk_directory (h : walk fs follow b base names slash = .ok (.directory d, s)) :
    fs.node? d = some .directory := by
  fun_induction walk fs follow b base names slash with
  | case1 b base names slash found harrived =>
    obtain ⟨rfl, rfl⟩ : found = .directory d ∧ slash = s := by simpa using h
    exact leg_directory hs hb harrived
  | case2 => cases h
  | case3 => cases h
  | case4 base names slash at' t rest hlink b ih =>
    refine ih ?_ h
    split
    · exact node?_nil
    · exact (leg_link hs hb hlink).1

end Sound

theorem mem_fields {f : Bytes} (h : f ∈ p.fields) :
    f ≠ [] ∧ Path.separator ∉ f ∧ ∀ o ∈ f, o ∈ p.bytes := by
  obtain ⟨hm, hne⟩ := List.mem_filter.mp h
  refine ⟨by simpa using hne, Text.not_mem_of_mem_splitAt hm, fun o ho => ?_⟩
  exact Text.mem_of_mem_splitAt hm ho

theorem Sound.start_directory (hs : fs.Sound) (p : Path) :
    fs.node? (if p.isAbsolute then [] else fs.working) = some .directory := by
  split
  · exact node?_nil
  · exact hs.home

/-- A path that leads to an entry names it, and the entry lies in a directory. -/
theorem resolve_isName (hs : fs.Sound)
    (h : fs.resolve false p = .ok (.entry parent name node, s)) :
    fs.node? parent = some .directory ∧ IsName name := by
  obtain ⟨h₀, -, -, hw⟩ := resolve_eq_ok h
  have hb := hs.start_directory p
  obtain ⟨hparent, hlast, hdot, hdotDot, hshort⟩ := walk_entry hs hb hw
  obtain ⟨hne, hsep, hsub⟩ := mem_fields (List.mem_of_getLast? hlast)
  refine ⟨hparent, ⟨hne, hsep, fun hz => ?_, hdot, hdotDot⟩, hshort⟩
  simp [hsub 0 hz] at h₀

theorem node?_of_directory? (hs : fs.Sound) (h : fs.resolve follow p = .ok (spot, s))
    (hd : spot.directory? = some d) : fs.node? d = some .directory := by
  cases spot with
  | directory loc =>
    cases hd
    exact walk_directory hs (hs.start_directory p) (resolve_eq_ok h).2.2.2
  | entry parent name node =>
    obtain rfl := resolve_entry h
    cases hn : fs.node? (name :: parent) with
    | none => simp [hn, Spot.directory?] at hd
    | some n =>
      cases n with
      | directory =>
        simp only [hn, Spot.directory?, Option.some.injEq] at hd
        rw [← hd, hn]
      | file id => simp [hn, Spot.directory?] at hd
      | link t => simp [hn, Spot.directory?] at hd

end CaptureExport.FileSystem
