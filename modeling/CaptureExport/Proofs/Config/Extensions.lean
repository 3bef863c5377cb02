import CaptureExport.Config.Basic
import CaptureExport.Proofs.Text.Trim

/-! # Configured extensions

Every configured extension is a text without commas, without dots before it and without blanks
behind it. Blanks are removed before the dots, so those behind the leading dots of a field stay at
the front of its extension. The extensions are in normal form, and found again in the text that
joins them, exactly when no field hides a blank so.
-/

namespace CaptureExport.Config

open Text

variable {field cs : List Char} {raw e : String} {es : List String} {a : Arguments} {c : Config}

/-- What holds of every configured extension. -/
structure IsExtension (e : String) : Prop where
  ne_empty : e ≠ ""
  no_comma : ',' ∉ e.toList
  no_dot : e.toList.head? ≠ some '.'
  no_blank_behind : ∀ c ∈ e.toList.getLast?, isBlank c = false

structure IsNormal (e : String) : Prop extends IsExtension e where
  no_blank_before : ∀ c ∈ e.toList.head?, isBlank c = false

/-- Behind the dots that a field begins with, its outer blanks aside, comes a blank. -/
def HidesBlank (field : List Char) : Prop :=
  ∃ dots c rest, (∀ d ∈ dots, d = '.') ∧ isBlank c = true ∧ trim field = dots ++ c :: rest

/-! ## One extension -/

theorem extensionOf_suffix (field : List Char) : extensionOf field <:+ trim field :=
  List.dropWhile_suffix _

theorem extensionOf_sublist (field : List Char) : (extensionOf field).Sublist field :=
  (extensionOf_suffix field).sublist.trans (trim_sublist field)

theorem head?_extensionOf (field : List Char) : (extensionOf field).head? ≠ some '.' := fun h =>
  Bool.false_ne_true ((not_of_mem_head?_dropWhile h).symm.trans (decide_eq_true rfl))

theorem isExtension_extensionOf (hf : ',' ∉ field) (hne : extensionOf field ≠ []) :
    IsExtension (String.ofList (extensionOf field)) where
  ne_empty h := hne (by simpa using congrArg String.toList h)
  no_comma h := hf ((extensionOf_sublist field).mem (by simpa using h))
  no_dot := by simpa using head?_extensionOf field
  no_blank_behind c hc := by
    rw [String.toList_ofList] at hc
    exact (trimmed_trim field).last c (mem_getLast?_of_suffix (extensionOf_suffix field) hc)

/-- A field is its own extension when there is nothing to remove from it. -/
theorem extensionOf_eq_self_iff : extensionOf cs = cs ↔ Trimmed cs ∧ cs.head? ≠ some '.' := by
  constructor
  · intro h
    have hlength : cs.length ≤ (trim cs).length := by
      simpa [h] using (extensionOf_suffix cs).length_le
    have htrim : trim cs = cs := (trim_sublist cs).eq_of_length_le hlength
    exact ⟨trim_eq_self_iff.mp htrim, h ▸ head?_extensionOf cs⟩
  · rintro ⟨htrim, hdot⟩
    rw [extensionOf, trim_eq_self_iff.mpr htrim, dropWhile_eq_self_iff]
    intro c hc
    exact decide_eq_false fun he => hdot (he ▸ hc)

theorem exists_blank_iff :
    (∃ c ∈ (extensionOf field).head?, isBlank c = true) ↔ HidesBlank field := by
  constructor
  · rintro ⟨c, hc, hblank⟩
    obtain ⟨rest, hrest⟩ := List.head?_eq_some_iff.mp hc
    refine ⟨(trim field).takeWhile (· = '.'), c, rest, fun d hd => ?_, hblank, ?_⟩
    · simpa using List.mem_takeWhile_imp hd
    · rw [← hrest]
      exact List.takeWhile_append_dropWhile.symm
  · rintro ⟨dots, c, rest, hdots, hblank, htrim⟩
    have hdot : c ≠ '.' := by
      rintro rfl
      exact absurd hblank (by decide)
    refine ⟨c, ?_, hblank⟩
    rw [extensionOf, htrim, List.dropWhile_append_of_pos (by simpa using hdots),
      List.dropWhile_cons_of_neg (by simpa using hdot)]
    rfl

theorem isNormal_iff (hf : ',' ∉ field) (hne : extensionOf field ≠ []) :
    IsNormal (String.ofList (extensionOf field)) ↔ ¬ HidesBlank field := by
  rw [← exists_blank_iff]
  constructor
  · rintro h ⟨c, hc, hblank⟩
    exact absurd (h.no_blank_before c (by simpa using hc)) (by simp [hblank])
  · intro h
    refine ⟨isExtension_extensionOf hf hne, fun c hc => Bool.eq_false_iff.mpr fun hblank => ?_⟩
    exact h ⟨c, by simpa using hc, hblank⟩

/-! ## The list of extensions -/

theorem mem_parseExtensions : e ∈ parseExtensions raw ↔ ∃ field ∈ splitAt ',' raw.toList,
    extensionOf field ≠ [] ∧ e = String.ofList (extensionOf field) := by
  simp only [parseExtensions, List.mem_filterMap, List.mem_map, exists_exists_and_eq_and]
  refine exists_congr fun field => and_congr_right fun _ => ?_
  by_cases hnil : extensionOf field = []
  · simp [hnil]
  · simp only [List.isEmpty_iff, hnil, if_false, Option.some.injEq, ne_eq, not_false_eq_true,
      true_and]
    exact eq_comm

theorem isExtension_of_mem (h : e ∈ parseExtensions raw) : IsExtension e := by
  obtain ⟨field, hfield, hne, rfl⟩ := mem_parseExtensions.mp h
  exact isExtension_extensionOf (not_mem_of_mem_splitAt hfield) hne

theorem all_normal_iff : (∀ e ∈ parseExtensions raw, IsNormal e) ↔
    ∀ field ∈ splitAt ',' raw.toList, ¬ HidesBlank field := by
  constructor
  · intro h field hfield hides
    obtain ⟨c, hc, -⟩ := exists_blank_iff.mpr hides
    have hne : extensionOf field ≠ [] := by
      intro hnil
      simp [hnil] at hc
    exact (isNormal_iff (not_mem_of_mem_splitAt hfield) hne).mp
      (h _ (mem_parseExtensions.mpr ⟨field, hfield, hne, rfl⟩)) hides
  · intro h e he
    obtain ⟨field, hfield, hne, rfl⟩ := mem_parseExtensions.mp he
    exact (isNormal_iff (not_mem_of_mem_splitAt hfield) hne).mpr (h field hfield)

theorem parseExtensions_intercalate (h : ∀ e ∈ es, ',' ∉ e.toList) :
    parseExtensions (",".intercalate es) = es.filterMap fun e =>
      if (extensionOf e.toList).isEmpty then none
      else some (String.ofList (extensionOf e.toList)) := by
  by_cases hnil : es = []
  · subst hnil
    rfl
  · have hfields : splitAt ',' (",".intercalate es).toList = es.map String.toList := by
      rw [String.toList_intercalate]
      refine splitAt_intercalate (by simpa using hnil) fun field hfield => ?_
      obtain ⟨e, he, rfl⟩ := List.mem_map.mp hfield
      exact h e he
    rw [parseExtensions, hfields, List.map_map, List.filterMap_map]
    rfl

/-- Extensions are found again in the text that joins them when they are in normal form. -/
theorem parseExtensions_intercalate_eq_iff (h : ∀ e ∈ es, IsExtension e) :
    parseExtensions (",".intercalate es) = es ↔ ∀ e ∈ es, IsNormal e := by
  have hnormal (e : String) (he : e ∈ es) :
      extensionOf e.toList = e.toList ↔ IsNormal e := by
    rw [extensionOf_eq_self_iff]
    exact ⟨fun hself => ⟨h e he, hself.1.first⟩,
      fun hn => ⟨⟨hn.no_blank_before, hn.no_blank_behind⟩, hn.no_dot⟩⟩
  rw [parseExtensions_intercalate fun e he => (h e he).no_comma]
  constructor
  · intro heq e he
    -- No field is dropped, as the list would get shorter, so each stands for itself.
    have hsome := List.filterMap_length_eq_length.mp (congrArg List.length heq)
    have hmap : es.map (fun e => String.ofList (extensionOf e.toList)) = es.map id := by
      rw [List.map_id, ← List.filterMap_eq_map]
      refine Eq.trans (List.filterMap_congr fun e he => ?_) heq
      have := hsome e he
      split at this
      · cases this
      · rename_i hne
        rw [if_neg hne]
        rfl
    have hself := List.map_inj_left.mp hmap e he
    exact (hnormal e he).mp (by simpa using congrArg String.toList hself)
  · intro hall
    refine Eq.trans (List.filterMap_congr fun e he => ?_) List.filterMap_some
    rw [(hnormal e he).mpr (hall e he), if_neg, String.ofList_toList]
    simpa using (h e he).ne_empty

/-! ## Accepted arguments -/

theorem checked_of_ok (h : ofArguments a = .ok c) :
    parseExtensions a.pcapExt ≠ [] ∧ 0 < a.interval ∧ 1 ≤ a.retriesMax ∧
      c.extensions = parseExtensions a.pcapExt := by
  simp only [ofArguments, List.isEmpty_iff] at h
  split at h
  · cases h
  rename_i hextensions
  split at h
  · cases h
  rename_i hinterval
  split at h
  · cases h
  rename_i hretries
  cases h
  exact ⟨hextensions, Nat.pos_of_ne_zero hinterval, Nat.pos_of_ne_zero hretries, rfl⟩

theorem ofArguments_eq_ok_iff : (∃ c, ofArguments a = .ok c) ↔
    parseExtensions a.pcapExt ≠ [] ∧ 0 < a.interval ∧ 1 ≤ a.retriesMax := by
  constructor
  · rintro ⟨c, h⟩
    obtain ⟨hextensions, hinterval, hretries, -⟩ := checked_of_ok h
    exact ⟨hextensions, hinterval, hretries⟩
  · rintro ⟨hextensions, hinterval, hretries⟩
    simp only [ofArguments, List.isEmpty_iff, if_neg hextensions,
      if_neg (Nat.ne_of_gt hinterval), if_neg (Nat.ne_of_gt hretries)]
    exact ⟨_, rfl⟩

/-- The extensions in any text are in normal form, and found again in the text that joins them,
exactly when no field of the text hides a blank behind its dots. -/
theorem extensions_normal_iff (a : Arguments) :
    let fields := splitAt ',' a.pcapExt.toList
    let extensions := parseExtensions a.pcapExt
    (∀ e ∈ extensions, IsExtension e) ∧
    ((∀ e ∈ extensions, IsNormal e) ↔ ∀ field ∈ fields, ¬ HidesBlank field) ∧
    (parseExtensions (",".intercalate extensions) = extensions ↔
      ∀ field ∈ fields, ¬ HidesBlank field) ∧
    ((∃ c, ofArguments a = .ok c) ↔ extensions ≠ [] ∧ 0 < a.interval ∧ 1 ≤ a.retriesMax) ∧
    ∀ c, ofArguments a = .ok c → c.extensions = extensions := by
  intro fields extensions
  have hall : ∀ e ∈ extensions, IsExtension e := fun e he => isExtension_of_mem he
  exact ⟨hall, all_normal_iff, (parseExtensions_intercalate_eq_iff hall).trans all_normal_iff,
    ofArguments_eq_ok_iff, fun _ h => (checked_of_ok h).2.2.2⟩

/-- A blank behind a dot stays, and a second reading finds another extension. -/
theorem extensions_of_hidden_blank : ∃ c, ofArguments { pcapExt := ". pcap" } = .ok c ∧
    c.extensions = [" pcap"] ∧ ¬ IsNormal " pcap" ∧
    parseExtensions (",".intercalate c.extensions) = ["pcap"] := by
  refine ⟨_, rfl, rfl, fun h => ?_, rfl⟩
  exact absurd (h.no_blank_before ' ' rfl) (by decide)

end CaptureExport.Config
