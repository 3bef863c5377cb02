/-! # Splitting at a separator -/

namespace CaptureExport.Text

variable {α : Type} [DecidableEq α]

def splitAt (sep : α) : List α → List (List α)
  | [] => [[]]
  | a :: r =>
    if a = sep then [] :: splitAt sep r
    else
      match splitAt sep r with
      | [] => [[a]]
      | field :: fields => (a :: field) :: fields

def joinWith (sep : α) : List (List α) → List α
  | [] => []
  | [field] => field
  | field :: fields => field ++ sep :: joinWith sep fields

theorem splitAt_ne_nil (sep : α) (l : List α) : splitAt sep l ≠ [] := by
  cases l with
  | nil => simp [splitAt]
  | cons a r =>
    simp only [splitAt]
    split
    · simp
    · split <;> simp

theorem not_mem_of_mem_splitAt {sep : α} {l field : List α} (h : field ∈ splitAt sep l) :
    sep ∉ field := by
  induction l generalizing field with
  | nil => simp [splitAt] at h; simp [h]
  | cons a r ih =>
    simp only [splitAt] at h
    split at h
    · rcases List.mem_cons.mp h with rfl | h
      · simp
      · exact ih h
    · rename_i hne
      cases hs : splitAt sep r with
      | nil => exact absurd hs (splitAt_ne_nil sep r)
      | cons f fs =>
        rw [hs] at h ih
        rcases List.mem_cons.mp h with rfl | h
        · intro hm
          rcases List.mem_cons.mp hm with rfl | hm
          · exact hne rfl
          · exact ih List.mem_cons_self hm
        · exact ih (List.mem_cons_of_mem _ h)

theorem mem_of_mem_splitAt {sep a : α} {l field : List α} (h : field ∈ splitAt sep l)
    (ha : a ∈ field) : a ∈ l := by
  induction l generalizing field with
  | nil =>
    obtain rfl : field = [] := by simpa [splitAt] using h
    cases ha
  | cons b r ih =>
    simp only [splitAt] at h
    split at h
    · rcases List.mem_cons.mp h with rfl | h
      · cases ha
      · exact List.mem_cons_of_mem _ (ih h ha)
    · cases hs : splitAt sep r with
      | nil => exact absurd hs (splitAt_ne_nil sep r)
      | cons f fs =>
        rw [hs] at h ih
        rcases List.mem_cons.mp h with rfl | h
        · rcases List.mem_cons.mp ha with rfl | ha
          · exact List.mem_cons_self
          · exact List.mem_cons_of_mem _ (ih List.mem_cons_self ha)
        · exact List.mem_cons_of_mem _ (ih (List.mem_cons_of_mem _ h) ha)

theorem splitAt_eq_self {sep : α} {l : List α} (h : sep ∉ l) : splitAt sep l = [l] := by
  induction l with
  | nil => rfl
  | cons a r ih =>
    have hne : ¬ a = sep := fun he => h (he ▸ List.mem_cons_self)
    simp [splitAt, hne, ih fun hm => h (List.mem_cons_of_mem _ hm)]

theorem splitAt_append (sep : α) (l r : List α) :
    splitAt sep (l ++ sep :: r) = splitAt sep l ++ splitAt sep r := by
  induction l with
  | nil => simp [splitAt]
  | cons a l ih =>
    simp only [List.cons_append, splitAt, ih]
    split
    · rfl
    · cases hs : splitAt sep l with
      | nil => exact absurd hs (splitAt_ne_nil sep l)
      | cons f fs => rfl

theorem splitAt_intercalate {sep : α} {fields : List (List α)} (hne : fields ≠ [])
    (h : ∀ field ∈ fields, sep ∉ field) : splitAt sep ([sep].intercalate fields) = fields := by
  induction fields with
  | nil => exact absurd rfl hne
  | cons field fields ih =>
    have hfield := splitAt_eq_self (h field List.mem_cons_self)
    cases fields with
    | nil => rw [List.intercalate_singleton, hfield]
    | cons next rest =>
      rw [List.intercalate_cons_cons, List.append_assoc, List.singleton_append, splitAt_append,
        hfield, ih (List.cons_ne_nil _ _) fun f hf => h f (List.mem_cons_of_mem _ hf),
        List.singleton_append]

end CaptureExport.Text
