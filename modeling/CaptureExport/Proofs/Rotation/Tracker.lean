import CaptureExport.Rotation.Tracker

/-! # Slots of the tracker

What the two accesses of the tracker do to the slot of their own stream and to those of all
others. Everything else about rotation is derived from these equations.
-/

namespace CaptureExport.Tracker

variable {t : Tracker} {key other : StreamKey} {s : Slot} {segment previous : Path}

theorem slot?_set_self : (t.set key s).slot? key = some s := by
  unfold set
  cases h : t.slot? key with
  | none =>
    simp only [slot?, Option.map_eq_none_iff] at h
    simp [slot?, List.find?_append, h]
  | some old =>
    simp only [slot?, Option.map_eq_some_iff] at h
    obtain ⟨e, he, rfl⟩ := h
    have hk : e.1 = key := by simpa using List.find?_some he
    have hf : ((fun s : StreamKey × Slot => decide (s.1 = key)) ∘
        fun e => if e.1 = key then (key, s) else e) = fun e => decide (e.1 = key) := by
      funext e
      by_cases hek : e.1 = key <;> simp [hek]
    simp only [slot?, List.find?_map, hf, he, Option.map_some, hk, if_true]

theorem slot?_set_of_ne (h : other ≠ key) : (t.set key s).slot? other = t.slot? other := by
  unfold set
  cases t.slot? key with
  | none =>
    have hn : ¬ key = other := fun he => h he.symm
    simp [slot?, List.find?_append, hn]
  | some old =>
    simp only [slot?, List.find?_map]
    have hf : ((fun s : StreamKey × Slot => decide (s.1 = other)) ∘
        fun e => if e.1 = key then (key, s) else e) = fun e => decide (e.1 = other) := by
      funext e
      by_cases he : e.1 = key
      · have hn : ¬ key = other := fun he => h he.symm
        simp [he, hn]
      · simp [he]
    rw [hf, Option.map_map]
    cases hfind : t.slots.find? fun e => e.1 = other with
    | none => rfl
    | some e =>
      have he : ¬ e.1 = key := by
        have := List.find?_some hfind
        simp only [decide_eq_true_eq] at this
        exact this ▸ h
      simp [he]

@[simp] theorem slot_set_self : (t.set key s).slot key = s := by
  simp [slot, slot?_set_self]

theorem slot_set_of_ne (h : other ≠ key) : (t.set key s).slot other = t.slot other := by
  simp [slot, slot?_set_of_ne h]

theorem slot?_eq_none_iff : t.slot? key = none ↔ key ∉ t.slots.map Prod.fst := by
  simp only [slot?, Option.map_eq_none_iff, List.find?_eq_none, decide_eq_true_eq, List.mem_map,
    not_exists, not_and]

theorem keys_set : (t.set key s).slots.map Prod.fst =
    if key ∈ t.slots.map Prod.fst then t.slots.map Prod.fst else t.slots.map Prod.fst ++ [key] := by
  unfold set
  cases h : t.slot? key with
  | none =>
    rw [if_neg (slot?_eq_none_iff.mp h)]
    simp
  | some old =>
    have hmem : key ∈ t.slots.map Prod.fst :=
      Decidable.byContradiction fun hn => by simp [slot?_eq_none_iff.mpr hn] at h
    rw [if_pos hmem, List.map_map]
    refine List.map_congr_left fun e _ => ?_
    by_cases hk : e.1 = key <;> simp [hk]

theorem observe_first (h : (t.slot key).count = 0) :
    t.observe key segment = (.first, t.set key ⟨1, some segment⟩) := by
  simp [observe, h]

theorem observe_superseded (hc : (t.slot key).count ≠ 0)
    (ha : (t.slot key).active = some previous) (hp : previous.bytes ≠ []) :
    t.observe key segment = (.superseded previous ((t.slot key).count + 1),
      t.set key ⟨(t.slot key).count + 1, some previous⟩) := by
  simp [observe, hc, ha, hp]

theorem observe_orphaned (hc : (t.slot key).count ≠ 0)
    (ha : ∀ p ∈ (t.slot key).active, p.bytes = []) :
    t.observe key segment = (.orphaned ((t.slot key).count + 1),
      t.set key ⟨(t.slot key).count + 1, some segment⟩) := by
  cases h : (t.slot key).active with
  | none => simp [observe, hc, h]
  | some p => simp [observe, hc, h, ha p h]

theorem slot_advance_self :
    (t.advance key previous segment).2.slot key = ⟨(t.slot key).count, some segment⟩ :=
  slot_set_self

theorem slot_advance_of_ne (h : other ≠ key) :
    (t.advance key previous segment).2.slot other = t.slot other :=
  slot_set_of_ne h

theorem advance_fst (ha : (t.slot key).active = some segment) {new : Path} :
    (t.advance key previous new).1 = segment.alike previous := by
  simp [advance, ha]

end CaptureExport.Tracker

namespace CaptureExport.Path

theorem alike_refl (p : Path) : p.alike p := by simp [alike]

end CaptureExport.Path
