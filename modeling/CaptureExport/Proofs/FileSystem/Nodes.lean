import Mathlib.Data.List.Nodup
import CaptureExport.FileSystem.Basic

/-! # Nodes and contents

What a change of a file system does to the node at every location and to the content of every
file, and that sound file systems stay sound.
-/

namespace CaptureExport.FileSystem

variable {fs gs : FileSystem} {loc parent : Location} {name : Name} {node : Node} {id : FileId}
  {c : Bytes}

theorem isWithin_iff {dir : Location} : isWithin dir loc = true ↔ dir <:+ loc :=
  List.isSuffixOf_iff_suffix

theorem isWithin_self (loc : Location) : isWithin loc loc :=
  isWithin_iff.mpr (List.suffix_refl loc)

theorem isWithin_cons (name : Name) (dir : Location) : isWithin dir (name :: dir) :=
  isWithin_iff.mpr (List.suffix_cons name dir)

@[simp] theorem node?_nil : fs.node? [] = some .directory := by simp [node?]

theorem ne_nil_of_node?_eq_none (h : fs.node? loc = none) : loc ≠ [] := by
  rintro rfl
  simp at h

theorem node?_congr (h : fs.entries = gs.entries) : fs.node? loc = gs.node? loc := by
  simp [node?, h]

theorem node?_insert (h : fs.node? loc = none) (l : Location) :
    (fs.insert loc node).node? l = if l = loc then some node else fs.node? l := by
  have hne := ne_nil_of_node?_eq_none h
  by_cases hl : l = []
  · subst hl
    simp [hne.symm]
  · by_cases he : l = loc
    · subst he
      simp only [node?, if_neg hl, Option.map_eq_none_iff] at h
      simp [node?, insert, hl, List.find?_append, h]
    · have he' : ¬ loc = l := fun h => he h.symm
      simp [node?, insert, hl, he, he', List.find?_append]

theorem node?_insertFile (h : fs.node? loc = none) (l : Location) :
    (fs.insertFile loc c).1.node? l =
      if l = loc then some (.file fs.contents.length) else fs.node? l := by
  rw [← node?_insert h]
  exact node?_congr rfl

theorem node?_erase (l : Location) :
    (fs.erase loc).node? l = if l = loc ∧ l ≠ [] then none else fs.node? l := by
  by_cases hl : l = []
  · simp [hl]
  · simp only [node?, erase, if_neg hl, List.find?_filter]
    by_cases he : l = loc
    · subst he
      rw [if_pos ⟨rfl, hl⟩]
      simp
    · rw [if_neg fun h => he h.1]
      congr 2
      funext e
      by_cases hel : e.1 = l <;> simp [hel, he]

@[simp] theorem node?_setContent (l : Location) :
    (fs.setContent id c).node? l = fs.node? l :=
  node?_congr rfl

theorem content_setContent (i : FileId) : (fs.setContent id c).content i =
    if i = id ∧ id < fs.contents.length then c else fs.content i := by
  simp only [content, setContent, List.getD_eq_getElem?_getD, List.getElem?_set]
  by_cases hi : id = i
  · subst hi
    by_cases hl : id < fs.contents.length <;> simp [hl]
  · have hi' : ¬ i = id := fun h => hi h.symm
    simp [hi, hi']

theorem setContent_setContent (d : Bytes) :
    (fs.setContent id c).setContent id d = fs.setContent id d := by
  simp [setContent]

theorem content_insertFile (i : FileId) : (fs.insertFile loc c).1.content i =
    if i = fs.contents.length then c else fs.content i := by
  simp only [content, insertFile, List.getD_eq_getElem?_getD]
  rcases Nat.lt_trichotomy i fs.contents.length with h | h | h
  · rw [List.getElem?_append_left h, if_neg (Nat.ne_of_lt h)]
  · subst h
    simp
  · rw [if_neg (Nat.ne_of_gt h), List.getElem?_eq_none (by simp; omega),
      List.getElem?_eq_none (by omega)]

theorem setContent_insertFile (d : Bytes) :
    (fs.insertFile loc c).1.setContent fs.contents.length d = (fs.insertFile loc d).1 := by
  simp [insertFile, setContent]

@[simp] theorem content_erase (i : FileId) : (fs.erase loc).content i = fs.content i := rfl

theorem standing?_eq_file_iff : fs.standing? loc = some (.file c) ↔
    ∃ id, fs.node? loc = some (.file id) ∧ fs.content id = c := by
  unfold standing?
  cases fs.node? loc with
  | none => simp
  | some n => cases n <;> simp

theorem standing?_eq_none_iff : fs.standing? loc = none ↔ fs.node? loc = none := by
  simp [standing?]

theorem standing?_eq_of_node? (hn : gs.node? loc = fs.node? loc)
    (hc : ∀ id, fs.node? loc = some (.file id) → gs.content id = fs.content id) :
    gs.standing? loc = fs.standing? loc := by
  unfold standing?
  rw [hn]
  cases h : fs.node? loc with
  | none => rfl
  | some n =>
    cases n with
    | file id => simp [hc id h]
    | directory => rfl
    | link t => rfl

namespace Sound

theorem mem_iff (h : fs.Sound) :
    (loc, node) ∈ fs.entries ↔ loc ≠ [] ∧ fs.node? loc = some node := by
  constructor
  · intro hm
    have hne := h.rooted _ hm
    refine ⟨hne, ?_⟩
    simp only [node?, if_neg hne, Option.map_eq_some_iff]
    obtain ⟨e, he⟩ : ∃ e, fs.entries.find? (fun e => e.1 = loc) = some e :=
      Option.isSome_iff_exists.mp (List.find?_isSome.mpr ⟨_, hm, by simp⟩)
    have hk : e.1 = loc := by simpa using List.find?_some he
    refine ⟨e, he, congrArg Prod.snd (?_ : e = (loc, node))⟩
    exact List.inj_on_of_nodup_map h.distinct (List.mem_of_find?_eq_some he) hm hk
  · rintro ⟨hne, hn⟩
    simp only [node?, if_neg hne, Option.map_eq_some_iff] at hn
    obtain ⟨e, he, rfl⟩ := hn
    have hk : e.1 = loc := by simpa using List.find?_some he
    rw [← hk]
    exact List.mem_of_find?_eq_some he

theorem isName (h : fs.Sound) (hn : fs.node? (name :: parent) = some node) : IsName name :=
  h.named name parent node (h.mem_iff.mpr ⟨by simp, hn⟩)

theorem parent_directory (h : fs.Sound) (hn : fs.node? (name :: parent) = some node) :
    fs.node? parent = some .directory :=
  h.parents name parent node (h.mem_iff.mpr ⟨by simp, hn⟩)

theorem file_ne_nil (hn : fs.node? loc = some (.file id)) : loc ≠ [] := by
  rintro rfl
  simp at hn

theorem id_lt (h : fs.Sound) (hn : fs.node? loc = some (.file id)) : id < fs.contents.length :=
  h.stored loc id (h.mem_iff.mpr ⟨file_ne_nil hn, hn⟩)

theorem eq_of_file (h : fs.Sound) {l : Location} (hn : fs.node? loc = some (.file id))
    (hl : fs.node? l = some (.file id)) : loc = l :=
  h.unshared loc l id (h.mem_iff.mpr ⟨file_ne_nil hn, hn⟩) (h.mem_iff.mpr ⟨file_ne_nil hl, hl⟩)

theorem not_mem_keys (hn : fs.node? loc = none) : loc ∉ fs.entries.map Prod.fst := by
  intro hm
  obtain ⟨e, he, rfl⟩ := List.mem_map.mp hm
  simp only [node?, if_neg (ne_nil_of_node?_eq_none hn), Option.map_eq_none_iff,
    List.find?_eq_none] at hn
  exact hn e he (by simp)

theorem insertFile (h : fs.Sound) (hfree : fs.node? (name :: parent) = none)
    (hdir : fs.node? parent = some .directory) (hname : IsName name) :
    (fs.insertFile (name :: parent) c).1.Sound := by
  have hnode (l : Location) (hl : fs.node? l = some .directory) :
      (fs.insertFile (name :: parent) c).1.node? l = some .directory := by
    rw [node?_insertFile hfree, if_neg, hl]
    rintro rfl
    rw [hfree] at hl
    cases hl
  have hmem {e : Location × Node} (he : e ∈ (fs.insertFile (name :: parent) c).1.entries) :
      e ∈ fs.entries ∨ e = (name :: parent, .file fs.contents.length) := by
    simpa [FileSystem.insertFile] using he
  constructor
  case named =>
    intro n p node hm
    rcases hmem hm with hm | hm
    · exact h.named n p node hm
    · cases hm
      exact hname
  case distinct =>
    have hnot := not_mem_keys hfree
    simp only [FileSystem.insertFile, List.map_append, List.map_cons, List.map_nil]
    exact List.nodup_append_comm.mp (List.nodup_cons.mpr ⟨hnot, h.distinct⟩)
  case rooted =>
    intro e he
    rcases hmem he with he | rfl
    · exact h.rooted e he
    · simp
  case parents =>
    intro n p node hm
    rcases hmem hm with hm | hm
    · exact hnode p (h.parents n p node hm)
    · cases hm
      exact hnode _ hdir
  case stored =>
    intro l i hm
    simp only [FileSystem.insertFile, List.length_append, List.length_singleton]
    rcases hmem hm with hm | hm
    · exact Nat.lt_succ_of_lt (h.stored l i hm)
    · cases hm
      exact Nat.lt_succ_self _
  case unshared =>
    intro l l' i hm hm'
    rcases hmem hm with hm | hm <;> rcases hmem hm' with hm' | hm'
    · exact h.unshared l l' i hm hm'
    · cases hm'
      exact absurd (h.stored l _ hm) (Nat.lt_irrefl _)
    · cases hm
      exact absurd (h.stored l' _ hm') (Nat.lt_irrefl _)
    · cases hm
      cases hm'
      rfl
  case home => exact hnode _ h.home

theorem setContent (h : fs.Sound) : (fs.setContent id c).Sound :=
  ⟨h.named, h.distinct, h.rooted, h.parents,
    fun l i hm => by simpa [FileSystem.setContent] using h.stored l i hm, h.unshared, h.home⟩

theorem erase (h : fs.Sound) (hn : fs.node? loc ≠ some .directory) : (fs.erase loc).Sound := by
  have hnode (l : Location) (hl : fs.node? l = some .directory) :
      (fs.erase loc).node? l = some .directory := by
    rw [node?_erase, if_neg, hl]
    rintro ⟨rfl, -⟩
    exact hn hl
  have hmem {e : Location × Node} (he : e ∈ (fs.erase loc).entries) : e ∈ fs.entries :=
    (List.mem_filter.mp he).1
  exact ⟨fun n p node hm => h.named n p node (hmem hm),
    h.distinct.sublist (List.filter_sublist.map _), fun e he => h.rooted e (hmem he),
    fun n p node hm => hnode p (h.parents n p node (hmem hm)),
    fun l i hm => h.stored l i (hmem hm),
    fun l l' i hm hm' => h.unshared l l' i (hmem hm) (hmem hm'), hnode _ h.home⟩

theorem erase_file (h : fs.Sound) (hn : fs.node? loc = some (.file id)) : (fs.erase loc).Sound :=
  h.erase (by simp [hn])

end Sound

/-! ## Deciding soundness -/

instance (name : Name) : Decidable (IsWord name) :=
  decidable_of_iff (name ≠ [] ∧ Path.separator ∉ name ∧ 0 ∉ name ∧ name ≠ Path.dot ∧
      name ≠ Path.dotDot)
    ⟨fun ⟨h₁, h₂, h₃, h₄, h₅⟩ => ⟨h₁, h₂, h₃, h₄, h₅⟩, fun ⟨h₁, h₂, h₃, h₄, h₅⟩ =>
      ⟨h₁, h₂, h₃, h₄, h₅⟩⟩

instance (name : Name) : Decidable (IsName name) :=
  decidable_of_iff (IsWord name ∧ name.length ≤ nameLimit)
    ⟨fun ⟨h, hs⟩ => ⟨h, hs⟩, fun ⟨h, hs⟩ => ⟨h, hs⟩⟩

def isStored (fs : FileSystem) (loc : Location) : Node → Bool
  | .file id => id < fs.contents.length && fs.entries.all fun e => e.2 ≠ .file id || e.1 = loc
  | _ => true

theorem sound_iff : fs.Sound ↔ (∀ e ∈ fs.entries, (∃ name ∈ e.1.head?, IsName name) ∧
    fs.node? e.1.tail = some .directory ∧ fs.isStored e.1 e.2) ∧
    (fs.entries.map Prod.fst).Nodup ∧ fs.node? fs.working = some .directory := by
  constructor
  · intro h
    refine ⟨fun ⟨loc, node⟩ he => ?_, h.distinct, h.home⟩
    obtain ⟨name, parent, rfl⟩ := List.exists_cons_of_ne_nil (h.rooted _ he)
    refine ⟨⟨name, rfl, h.named _ _ _ he⟩, h.parents _ _ _ he, ?_⟩
    cases node with
    | file id =>
      simp only [isStored, Bool.and_eq_true, decide_eq_true_eq, List.all_eq_true, Bool.or_eq_true]
      refine ⟨h.stored _ _ he, fun ⟨l, n⟩ hl => ?_⟩
      by_cases hn : n = .file id
      · subst hn
        exact Or.inr (h.unshared _ _ _ hl he)
      · exact Or.inl hn
    | directory => rfl
    | link t => rfl
  · rintro ⟨h, hd, hw⟩
    constructor
    case named =>
      intro name parent node he
      obtain ⟨⟨n, hn, hname⟩, -⟩ := h _ he
      cases hn
      exact hname
    case distinct => exact hd
    case rooted =>
      intro e he
      obtain ⟨⟨n, hn, -⟩, -⟩ := h e he
      rintro hnil
      rw [hnil] at hn
      cases hn
    case parents =>
      intro name parent node he
      exact (h _ he).2.1
    case stored =>
      intro loc id he
      have hs := (h _ he).2.2
      simp only [isStored, Bool.and_eq_true, decide_eq_true_eq] at hs
      exact hs.1
    case unshared =>
      intro loc l id he hl
      have hs := (h _ hl).2.2
      simp only [isStored, Bool.and_eq_true, List.all_eq_true] at hs
      simpa using hs.2 _ he
    case home => exact hw

instance (fs : FileSystem) : Decidable fs.Sound := decidable_of_iff _ sound_iff.symm

end CaptureExport.FileSystem
