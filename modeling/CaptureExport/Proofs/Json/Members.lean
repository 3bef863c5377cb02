import Mathlib.Data.List.Induction
import CaptureExport.Json.Basic

/-! # Members of an object

Setting a key concerns that key only, and keeps the order of the keys. Of several values set for
a key the last one stays.
-/

namespace CaptureExport.Json.Members

variable {m : Members} {pairs : List (String × Json)} {k key : String} {value : Json}
  {p : String × Json}

def Sorted (m : Members) : Prop := m.Pairwise fun p q => p.1 < q.1

/-- The last value for a key among pairs. -/
def lastValue {α : Type} (key : String) (pairs : List (String × α)) : Option α :=
  (pairs.filter fun p => p.1 = key).getLast?.map Prod.snd

theorem lt_of_ne_of_not_lt (hne : key ≠ k) (h : ¬ key < k) : k < key :=
  String.not_le.mp fun hle => hne (String.le_antisymm hle (String.not_lt.mp h))

theorem mem_insert (h : p ∈ insert key value m) : p = (key, value) ∨ p ∈ m := by
  fun_induction insert key value m <;> grind

theorem mem_keys_insert : k ∈ keys (insert key value m) ↔ k = key ∨ k ∈ keys m := by
  fun_induction insert key value m <;> grind [keys]

theorem get?_insert : get? k (insert key value m) = if k = key then some value else get? k m := by
  fun_induction insert key value m <;> grind [get?]

theorem Sorted.insert (h : Sorted m) : Sorted (insert key value m) := by
  induction m with
  | nil => exact List.pairwise_singleton ..
  | cons q m ih =>
    obtain ⟨hq, hm⟩ := List.pairwise_cons.mp h
    simp only [Members.insert]
    split
    · rename_i heq
      exact List.pairwise_cons.mpr ⟨fun r hr => heq ▸ hq r hr, hm⟩
    split
    · rename_i hlt
      refine List.pairwise_cons.mpr ⟨fun r hr => ?_, h⟩
      rcases List.mem_cons.mp hr with rfl | hr
      · exact hlt
      · exact String.lt_trans hlt (hq r hr)
    · rename_i hne hlt
      refine List.pairwise_cons.mpr ⟨fun r hr => ?_, ih hm⟩
      rcases mem_insert hr with rfl | hr
      · exact lt_of_ne_of_not_lt hne hlt
      · exact hq r hr

theorem insert_of_lt (h : ∀ p ∈ m, p.1 < key) : insert key value m = m ++ [(key, value)] := by
  induction m with
  | nil => rfl
  | cons q m ih =>
    have hq := h q List.mem_cons_self
    have hne : key ≠ q.1 := fun he => String.lt_irrefl _ (he ▸ hq)
    rw [insert, if_neg hne, if_neg (String.lt_asymm hq),
      ih fun p hp => h p (List.mem_cons_of_mem _ hp), List.cons_append]

/-! ## Several keys -/

theorem insertAll_concat (m : Members) (pairs : List (String × Json)) (p : String × Json) :
    m.insertAll (pairs ++ [p]) = insert p.1 p.2 (m.insertAll pairs) := by
  simp [insertAll]

theorem lastValue_concat {α : Type} (pairs : List (String × α)) (q : String × α) :
    lastValue k (pairs ++ [q]) = if k = q.1 then some q.2 else lastValue k pairs := by
  by_cases h : k = q.1
  · simp [lastValue, List.filter_append, h]
  · simp [lastValue, List.filter_append, h, Ne.symm h]

theorem lastValue_map {α β : Type} (g : α → β) (pairs : List (String × α)) :
    lastValue k (pairs.map fun p => (p.1, g p.2)) = (lastValue k pairs).map g := by
  induction pairs using List.reverseRecOn with
  | nil => rfl
  | append_singleton pairs p ih =>
    rw [List.map_append, List.map_singleton, lastValue_concat, lastValue_concat, ih]
    split <;> rfl

theorem Sorted.insertAll (h : Sorted m) (pairs : List (String × Json)) :
    Sorted (m.insertAll pairs) := by
  induction pairs using List.reverseRecOn with
  | nil => exact h
  | append_singleton pairs p ih =>
    rw [insertAll_concat]
    exact ih.insert

theorem mem_insertAll (h : p ∈ m.insertAll pairs) : p ∈ pairs ∨ p ∈ m := by
  induction pairs using List.reverseRecOn with
  | nil => exact .inr h
  | append_singleton pairs q ih =>
    rw [insertAll_concat] at h
    rcases mem_insert h with rfl | h
    · simp
    · exact (ih h).imp_left fun hp => List.mem_append_left _ hp

theorem mem_keys_insertAll :
    k ∈ keys (m.insertAll pairs) ↔ k ∈ keys m ∨ k ∈ pairs.map Prod.fst := by
  induction pairs using List.reverseRecOn with
  | nil => simp [insertAll]
  | append_singleton pairs p ih =>
    rw [insertAll_concat, mem_keys_insert, ih, List.map_append, List.mem_append, List.map_singleton,
      List.mem_singleton]
    tauto

/-- Of several values set for a key the last one stays, and without any the one before. -/
theorem get?_insertAll : get? k (m.insertAll pairs) = (lastValue k pairs).or (get? k m) := by
  induction pairs using List.reverseRecOn with
  | nil => rfl
  | append_singleton pairs p ih =>
    rw [insertAll_concat, get?_insert, lastValue_concat, ih]
    split <;> rfl

theorem insertAll_append (h : Sorted (m ++ pairs)) : m.insertAll pairs = m ++ pairs := by
  induction pairs generalizing m with
  | nil => simp [insertAll]
  | cons p pairs ih =>
    have hlt : ∀ q ∈ m, q.1 < p.1 := fun q hq =>
      (List.pairwise_append.mp h).2.2 q hq p List.mem_cons_self
    have hsorted : Sorted (m ++ [p] ++ pairs) := by simpa using h
    calc m.insertAll (p :: pairs) = (insert p.1 p.2 m).insertAll pairs := rfl
      _ = (m ++ [p]).insertAll pairs := by rw [insert_of_lt hlt]
      _ = m ++ [p] ++ pairs := ih hsorted
      _ = m ++ p :: pairs := by simp

/-- The members of an object are those set, when their keys ascend. -/
theorem object_of_sorted (h : Sorted pairs) : object pairs = .obj pairs := by
  rw [object, insertAll_append (by simpa using h), List.nil_append]

end CaptureExport.Json.Members
