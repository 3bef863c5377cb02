import CaptureExport.FileSystem.Operations
import CaptureExport.Proofs.FileSystem.Resolution

/-! # Names below a directory

A proper name joined to a path is its last component, and leads to the entry of that name in the
directory that the path leads to.
-/

namespace CaptureExport

open FileSystem

namespace Path

variable {dir : Path} {name : Name}

/-- What can be the file name of a path: a word that may hold the octet zero. -/
structure IsFileName (name : Name) : Prop where
  ne_nil : name ≠ []
  no_separator : separator ∉ name
  ne_dot : name ≠ dot
  ne_dotDot : name ≠ dotDot

theorem isFileName_of_isWord (hw : IsWord name) : IsFileName name :=
  ⟨hw.ne_nil, hw.no_separator, hw.ne_dot, hw.ne_dotDot⟩

theorem head?_ne_separator (hs : separator ∉ name) : name.head? ≠ some separator := fun h =>
  hs (List.mem_of_mem_head? h)

theorem join_cases (hs : separator ∉ name) :
    ((dir.bytes = [] ∨ dir.bytes.getLast? = some separator) ∧
        dir.join name = ⟨dir.bytes ++ name⟩) ∨
      (dir.bytes ≠ [] ∧ dir.join name = ⟨dir.bytes ++ separator :: name⟩) := by
  have hh := head?_ne_separator hs
  by_cases h : dir.bytes = [] ∨ dir.bytes.getLast? = some separator
  · exact Or.inl ⟨h, by simp [join, hh, h]⟩
  · obtain ⟨hwe, -⟩ := not_or.mp h
    exact Or.inr ⟨hwe, by simp [join, hh, h]⟩

theorem bytes_join (hs : separator ∉ name) : ∃ front, (dir.join name).bytes = front ++ name := by
  rcases @join_cases dir name hs with ⟨-, h⟩ | ⟨-, h⟩
  · exact ⟨dir.bytes, by rw [h]⟩
  · exact ⟨dir.bytes ++ [separator], by simp [h]⟩

theorem mem_bytes_join (hw : IsWord name) {o : UInt8} (h : o ∈ (dir.join name).bytes) :
    o ∈ dir.bytes ∨ o = separator ∨ o ∈ name := by
  rcases @join_cases dir name hw.no_separator with ⟨-, he⟩ | ⟨-, he⟩ <;> simp [he] at h <;> tauto

theorem isAbsolute_join (hd : dir.bytes ≠ []) (hw : IsWord name) :
    (dir.join name).isAbsolute = dir.isAbsolute := by
  obtain ⟨a, r, hr⟩ := List.exists_cons_of_ne_nil hd
  rcases @join_cases dir name hw.no_separator with ⟨-, h⟩ | ⟨-, h⟩ <;> simp [isAbsolute, h, hr]

theorem fields_join (hn : IsFileName name) : (dir.join name).fields = dir.fields ++ [name] := by
  have hfield : Text.splitAt separator name = [name] := Text.splitAt_eq_self hn.no_separator
  have hempty : name.isEmpty = false := by simpa using hn.ne_nil
  rcases @join_cases dir name hn.no_separator with ⟨hd, h⟩ | ⟨hd, h⟩
  · rcases hd with hd | hd
    · simp [fields, h, hd, hfield, hempty, Text.splitAt]
    · obtain ⟨front, hf⟩ := List.getLast?_eq_some_iff.mp hd
      simp [fields, h, hf, hfield, hempty, Text.splitAt_append, Text.splitAt]
  · simp [fields, h, hfield, hempty, Text.splitAt_append]

theorem fileName?_of_fields {front : List Bytes} (hf : dir.fields = front ++ [name])
    (hdot : name ≠ dot) (hdotDot : name ≠ dotDot) : dir.fileName? = some name := by
  have hlast (l : List Bytes) (c : List Component) :
      (c ++ (l ++ [name]).filterMap innerComponent).getLast? = some (.name name) := by
    simp [List.filterMap_append, innerComponent, hdot, hdotDot]
  have hc : dir.components.getLast? = some (.name name) := by
    unfold components
    rw [hf]
    split
    · exact hlast front [.root]
    · cases front with
      | nil => simpa [hdot] using hlast [] []
      | cons f l =>
        simp only [List.cons_append]
        split
        · exact hlast l [.here]
        · exact hlast (f :: l) []
  simp [fileName?, hc]

theorem IsFileName.fileName?_join (hn : IsFileName name) :
    (dir.join name).fileName? = some name :=
  fileName?_of_fields (fields_join hn) hn.ne_dot hn.ne_dotDot

theorem fileName?_join (hw : IsWord name) : (dir.join name).fileName? = some name :=
  (isFileName_of_isWord hw).fileName?_join

theorem isFileName_of_fileName? (h : dir.fileName? = some name) : IsFileName name := by
  have hlast : Component.name name ∈ dir.components := by
    unfold fileName? at h
    split at h
    · cases h
      exact List.mem_of_getLast? ‹_›
    · cases h
  have hinner {l : List Bytes} (hl : Component.name name ∈ l.filterMap innerComponent) :
      name ∈ l ∧ name ≠ dot ∧ name ≠ dotDot := by
    obtain ⟨f, hf, he⟩ := List.mem_filterMap.mp hl
    grind [innerComponent]
  have hfield : name ∈ dir.fields ∧ name ≠ dot ∧ name ≠ dotDot := by
    unfold components at hlast
    grind
  obtain ⟨hmem, hdot, hdotDot⟩ := hfield
  obtain ⟨hne, hs, -⟩ := mem_fields hmem
  exact ⟨hne, hs, hdot, hdotDot⟩

theorem fileName?_of_separated (front : Bytes) (hne : name ≠ []) (hs : separator ∉ name)
    (hdot : name ≠ dot) (hdotDot : name ≠ dotDot) :
    fileName? ⟨front ++ separator :: name⟩ = some name := by
  have hfields : fields ⟨front ++ separator :: name⟩ = fields ⟨front⟩ ++ [name] := by
    simp [fields, Text.splitAt_append, Text.splitAt_eq_self hs, hne]
  exact fileName?_of_fields hfields hdot hdotDot

theorem join_injective {other : Name} (hw : IsWord name) (hw' : IsWord other)
    (h : dir.join name = dir.join other) : name = other := by
  have hf := congrArg fileName? h
  rw [fileName?_join hw, fileName?_join hw'] at hf
  exact Option.some.inj hf

theorem endsInSeparator_join (hw : IsWord name) : endsInSeparator (dir.join name) = false := by
  obtain ⟨front, hf⟩ := @bytes_join dir name hw.no_separator
  rw [endsInSeparator, hf, List.getLast?_append_of_ne_nil _ hw.ne_nil]
  refine beq_eq_false_iff_ne.mpr fun h => ?_
  exact hw.no_separator (List.mem_of_getLast? h)

end Path

namespace FileSystem

variable {fs gs : FileSystem} {follow slash s : Bool} {base d : Location} {name : Name}
  {names rest : List Name} {spot : Spot} {p dir : Path} {b : ℕ}

theorem leg_append_of_arrived (hrest : rest ≠ []) (h : leg fs true base names = .arrived spot)
    (hd : spot.directory? = some d) :
    leg fs follow base (names ++ rest) = leg fs follow d rest := by
  have happ (l : List Name) : (l ++ rest).isEmpty = false := by simp [hrest]
  fun_induction leg fs true base names <;> grind [leg, Spot.directory?]

theorem leg_append_of_link (hrest : rest ≠ []) {t : Path} {more : List Name}
    (h : leg fs true base names = .link d t more) :
    leg fs follow base (names ++ rest) = .link d t (more ++ rest) := by
  have happ (l : List Name) : (l ++ rest).isEmpty = false := by simp [hrest]
  fun_induction leg fs true base names <;> grind [leg]

theorem walk_congr {names' : List Name}
    (h : leg fs follow base names = leg fs follow d names') :
    walk fs follow b base names slash = walk fs follow b d names' slash := by
  rw [walk.eq_def, walk.eq_def fs follow b d]
  simp only [h]

/-- A walk goes on from the directory to which the first part of the path leads. -/
theorem walk_append (hrest : rest ≠ []) (h : walk fs true b base names slash = .ok (spot, s))
    (hd : spot.directory? = some d) :
    ∃ b', ∀ slash,
      walk fs follow b base (names ++ rest) slash = walk fs follow b' d rest slash := by
  fun_induction walk fs true b base names slash with
  | case1 b base names slash found harrived =>
    obtain ⟨rfl, rfl⟩ : found = spot ∧ slash = s := by simpa using h
    refine ⟨b, fun slash => ?_⟩
    exact walk_congr (leg_append_of_arrived hrest harrived hd)
  | case2 => cases h
  | case3 => cases h
  | case4 base names slash at' t more hlink b ih =>
    obtain ⟨b', hb⟩ := ih h
    refine ⟨b', fun slash => ?_⟩
    rw [walk_of_link (leg_append_of_link hrest hlink), ← hb, List.append_assoc]
    have happ : (more ++ rest).isEmpty = false := by simp [hrest]
    rw [happ, Bool.false_and, Bool.or_false]

theorem walk_name (hn : IsName name)
    (hl : follow = false ∨ ∀ t, fs.node? (name :: d) ≠ some (.link t)) :
    walk fs follow b d [name] slash = .ok (.entry d name (fs.node? (name :: d)), slash) := by
  have hshort : ¬ nameLimit < name.length := Nat.not_lt.mpr hn.short
  refine walk_of_arrived ?_
  simp only [leg, hn.ne_dot, hn.ne_dotDot, hshort, if_false, List.isEmpty_nil]
  cases h : fs.node? (name :: d) with
  | none => rfl
  | some n =>
    cases n with
    | directory => rfl
    | file id => rfl
    | link t =>
      have hf : follow = false := hl.resolve_right fun hl => hl t h
      simp [hf]

theorem stat_eq_directory_iff : fs.stat p = .ok (d, .directory) ↔
    ∃ spot s, fs.resolve true p = .ok (spot, s) ∧ spot.directory? = some d := by
  unfold stat locate
  cases hr : fs.resolve true p with
  | error e => simp
  | ok r =>
    obtain ⟨spot, s⟩ := r
    cases spot with
    | directory loc => simp [Spot.directory?]
    | entry parent name node => cases node <;> grind [Spot.directory?]

theorem node?_of_stat (hs : fs.Sound) (h : fs.stat p = .ok (d, .directory)) :
    fs.node? d = some .directory := by
  obtain ⟨spot, s, hr, hspot⟩ := stat_eq_directory_iff.mp h
  exact node?_of_directory? hs hr hspot

structure Admits (dir : Path) (name : Name) : Prop extends IsName name where
  path_short : (dir.join name).bytes.length < pathLimit

theorem resolve_join_eq_walk (hd : fs.stat dir = .ok (d, .directory)) (hw : IsWord name) :
    ∃ b, fs.resolve follow (dir.join name) =
      if pathLimit ≤ (dir.join name).bytes.length then .error .nameTooLong
      else walk fs follow b d [name] false := by
  obtain ⟨spot, s, hr, hspot⟩ := stat_eq_directory_iff.mp hd
  obtain ⟨h₀, hne, -, hwalk⟩ := resolve_eq_ok hr
  obtain ⟨b, hb⟩ : ∃ b, ∀ slash, walk fs follow linkLimit
      (if dir.isAbsolute then [] else fs.working) (dir.fields ++ [name]) slash =
        walk fs follow b d [name] slash := walk_append (by simp) hwalk hspot
  have hnul : (dir.join name).bytes.contains 0 = false := by
    rw [Bool.eq_false_iff]
    intro hz
    rcases Path.mem_bytes_join hw (List.contains_iff_mem.mp hz) with h | h | h
    · simp [h] at h₀
    · cases h
    · exact hw.no_nul h
  have hempty : (dir.join name).bytes.isEmpty = false := by
    obtain ⟨front, hfront⟩ := @Path.bytes_join dir name hw.no_separator
    simp [hfront, hw.ne_nil]
  refine ⟨b, ?_⟩
  simp only [resolve, hnul, hempty, Bool.false_eq_true, if_false, Path.isAbsolute_join hne hw,
    Path.fields_join (Path.isFileName_of_isWord hw), Path.endsInSeparator_join hw, hb]

/-- A name below a path to a directory leads to an entry of the directory. -/
theorem resolve_join (hd : fs.stat dir = .ok (d, .directory)) (hn : Admits dir name)
    (hl : follow = false ∨ ∀ t, fs.node? (name :: d) ≠ some (.link t)) :
    fs.resolve follow (dir.join name) =
      .ok (.entry d name (fs.node? (name :: d)), false) := by
  obtain ⟨b, hb⟩ : ∃ b, fs.resolve follow (dir.join name) = _ :=
    resolve_join_eq_walk hd hn.toIsWord
  rw [hb, if_neg (Nat.not_le.mpr hn.path_short)]
  exact walk_name hn.toIsName hl

theorem resolve_join_too_long (hd : fs.stat dir = .ok (d, .directory)) (hw : IsWord name)
    (hn : ¬ Admits dir name) : fs.resolve follow (dir.join name) = .error .nameTooLong := by
  obtain ⟨b, hb⟩ : ∃ b, fs.resolve follow (dir.join name) = _ := resolve_join_eq_walk hd hw
  rw [hb]
  split
  · rfl
  · rename_i hlen
    have hlong : nameLimit < name.length := Nat.not_le.mp fun hs =>
      hn ⟨⟨hw, hs⟩, Nat.not_le.mp hlen⟩
    unfold walk
    simp [leg, hw.ne_dot, hw.ne_dotDot, hlong]

theorem Narrows.stat_directory (hn : Narrows fs gs) (h : gs.stat p = .ok (d, .directory)) :
    fs.stat p = .ok (d, .directory) := by
  obtain ⟨spot, s, hr, hspot⟩ := stat_eq_directory_iff.mp h
  obtain ⟨spot', hr', hspot'⟩ := hn.resolve_directory hr hspot
  exact stat_eq_directory_iff.mpr ⟨spot', s, hr', hspot'⟩

end FileSystem
end CaptureExport
