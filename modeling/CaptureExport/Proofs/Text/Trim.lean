import Mathlib.Data.List.DropRight
import CaptureExport.Text.Blank

/-! # Trimming

A trimmed text is the part between its outer blanks: it begins and ends with characters that are
none, and a text that does so already is left alone.
-/

namespace CaptureExport.Text

variable {p : Char → Bool} {c : Char} {cs : List Char}

theorem trimEnd_isPrefix (p : Char → Bool) (cs : List Char) : trimEnd p cs <+: cs :=
  List.rdropWhile_prefix p cs

theorem not_of_mem_head?_dropWhile (h : c ∈ (cs.dropWhile p).head?) : p c = false := by
  have hhead := List.head?_dropWhile_not p cs
  rw [Option.mem_def.mp h] at hhead
  exact hhead

theorem mem_head?_of_isPrefix {ds : List Char} (h : cs <+: ds) (hc : c ∈ cs.head?) :
    c ∈ ds.head? := by
  obtain ⟨r, rfl⟩ := h
  simp only [Option.mem_def] at hc ⊢
  rw [List.head?_append, hc, Option.some_or]

theorem mem_getLast?_of_suffix {ds : List Char} (h : cs <:+ ds) (hc : c ∈ cs.getLast?) :
    c ∈ ds.getLast? := by
  obtain ⟨r, rfl⟩ := h
  simp only [Option.mem_def] at hc ⊢
  rw [List.getLast?_append, hc, Option.some_or]

theorem dropWhile_eq_self_iff : cs.dropWhile p = cs ↔ ∀ c ∈ cs.head?, p c = false := by
  cases cs with
  | nil => simp
  | cons c r => simp [List.dropWhile_eq_self_iff]

theorem trimEnd_eq_self_iff : trimEnd p cs = cs ↔ ∀ c ∈ cs.getLast?, p c = false := by
  rw [trimEnd, List.reverse_eq_iff, dropWhile_eq_self_iff, List.head?_reverse]

structure Trimmed (cs : List Char) : Prop where
  first : ∀ c ∈ cs.head?, isBlank c = false
  last : ∀ c ∈ cs.getLast?, isBlank c = false

theorem trimmed_trim (cs : List Char) : Trimmed (trim cs) where
  first _ hc := not_of_mem_head?_dropWhile (mem_head?_of_isPrefix (trimEnd_isPrefix _ _) hc)
  last c hc := by
    rw [trim, trimEnd, List.getLast?_reverse] at hc
    exact not_of_mem_head?_dropWhile hc

theorem trim_sublist (cs : List Char) : (trim cs).Sublist cs :=
  (trimEnd_isPrefix _ _).sublist.trans (List.dropWhile_suffix _).sublist

theorem trim_eq_self_iff : trim cs = cs ↔ Trimmed cs := by
  constructor
  · intro h
    exact h ▸ trimmed_trim cs
  · rintro ⟨hfirst, hlast⟩
    rw [trim, dropWhile_eq_self_iff.mpr hfirst, trimEnd_eq_self_iff.mpr hlast]

end CaptureExport.Text
