import CaptureExport.Proofs.Rotation.Pairing

/-! # What a dispatch exports

A dispatch exports the active segment of its stream, whatever it was. When a path is reported
again with no other segment of its stream in between, it is itself the active segment, and its
dispatch exports it although nothing has superseded it.
-/

namespace CaptureExport

namespace Tracker

variable {t : Tracker} {key : StreamKey} {segment previous : Path} {n : ℕ}

theorem observe_eq_superseded :
    (t.observe key segment).1 = .superseded previous n ↔ (t.slot key).count ≠ 0 ∧
      (t.slot key).active = some previous ∧ previous.bytes ≠ [] ∧ n = (t.slot key).count + 1 := by
  constructor
  · intro h
    unfold observe at h
    generalize t.slot key = s at h
    obtain ⟨count, active⟩ := s
    by_cases hc : count = 0
    · simp [hc] at h
    · cases active with
      | none => simp [hc] at h
      | some q =>
        by_cases hq : q.bytes = []
        · simp [hc, hq] at h
        · obtain ⟨rfl, rfl⟩ : q = previous ∧ count + 1 = n := by simpa [hc, hq] using h
          exact ⟨hc, rfl, hq, rfl⟩
  · rintro ⟨hc, ha, hq, rfl⟩
    rw [observe_superseded hc ha hq]

end Tracker

namespace Dispatch

variable {pattern : SegmentPattern} {meanwhile : Tracker → Tracker} {p previous : Path}
  {t : Tracker} {leaked : Bool}

/-- A dispatch exports exactly the active segment that it observes. -/
theorem run_eq_exporting : (∃ leaked, (run pattern meanwhile p t).dispatch =
      .exporting previous leaked) ↔ ∃ key, pattern.key? p = some key ∧ t.count key ≠ 0 ∧
        t.active? key = some previous ∧ previous.bytes ≠ [] := by
  cases hk : pattern.key? p with
  | none => simp [run, hk]
  | some key =>
    have hobserve {q : Path} {n : ℕ} := @Tracker.observe_eq_superseded t key p q n
    simp only [run, hk]
    generalize t.observe key p = o at hobserve
    obtain ⟨rotation, t'⟩ := o
    cases rotation with
    | first =>
      constructor
      · rintro ⟨_, h⟩
        cases h
      · rintro ⟨key', hkey, hc, ha, hn⟩
        cases hkey
        cases hobserve.mpr ⟨hc, ha, hn, rfl⟩
    | orphaned n =>
      constructor
      · rintro ⟨_, h⟩
        cases h
      · rintro ⟨key', hkey, hc, ha, hn⟩
        cases hkey
        cases hobserve.mpr ⟨hc, ha, hn, rfl⟩
    | superseded q n =>
      obtain ⟨hc, ha, hn, -⟩ := hobserve.mp rfl
      constructor
      · rintro ⟨_, h⟩
        cases h
        exact ⟨key, rfl, hc, ha, hn⟩
      · rintro ⟨key', hkey, -, ha', -⟩
        cases hkey
        obtain rfl : q = previous := Option.some.inj (ha.symm.trans ha')
        exact ⟨_, rfl⟩

theorem run_task (h : (run pattern meanwhile p t).dispatch = .exporting previous leaked) :
    ∃ key n, pattern.key? p = some key ∧
      (run pattern meanwhile p t).task = some ⟨previous, key, .streaming n⟩ := by
  cases hk : pattern.key? p with
  | none => simp [run, hk] at h
  | some key =>
    simp only [run, hk] at h ⊢
    generalize t.observe key p = o at h ⊢
    obtain ⟨rotation, t'⟩ := o
    cases rotation with
    | superseded q n =>
      cases h
      exact ⟨key, n, rfl, rfl⟩
    | _ => cases h

/-- The source of a streaming export is the active segment of its stream. It is the dispatched path
itself exactly when the last segment of the stream was the same path. -/
theorem exports_itself_iff (pattern : SegmentPattern) (meanwhile : Tracker → Tracker) (p : Path) :
    (∀ t previous leaked, (run pattern meanwhile p t).dispatch = .exporting previous leaked →
      ∃ key n, pattern.key? p = some key ∧ t.active? key = some previous ∧
        (run pattern meanwhile p t).task = some ⟨previous, key, .streaming n⟩) ∧
    ∀ paths, (∃ previous leaked, (run pattern meanwhile p (all pattern paths {}).2.1).dispatch =
        .exporting previous leaked ∧ previous.alike p) ↔
      ∃ key last, pattern.key? p = some key ∧
        (segmentsOf pattern key paths).getLast? = some last ∧ last.alike p := by
  constructor
  · intro t previous leaked h
    obtain ⟨key, n, hk, ht⟩ := run_task h
    obtain ⟨key', hk', -, ha, -⟩ := run_eq_exporting.mp ⟨leaked, h⟩
    obtain rfl : key = key' := Option.some.inj (hk.symm.trans hk')
    exact ⟨key, n, hk, ha, ht⟩
  · intro paths
    have hslot := (all_paired pattern paths).slot_eq
    constructor
    · rintro ⟨previous, leaked, h, halike⟩
      obtain ⟨key, hk, -, ha, -⟩ := run_eq_exporting.mp ⟨leaked, h⟩
      rw [Tracker.active?, hslot key] at ha
      exact ⟨key, previous, hk, ha, halike⟩
    · rintro ⟨key, last, hk, hl, halike⟩
      have hm := List.mem_of_getLast? hl
      have hc : (all pattern paths {}).2.1.count key ≠ 0 := by
        rw [Tracker.count, hslot key]
        exact Nat.ne_of_gt (List.length_pos_of_mem hm)
      have ha : (all pattern paths {}).2.1.active? key = some last := by
        rw [Tracker.active?, hslot key, hl]
      have hn := SegmentPattern.bytes_ne_nil_of_key? (mem_segmentsOf.mp hm).2
      obtain ⟨leaked, h⟩ := run_eq_exporting.mpr ⟨key, hk, hc, ha, hn⟩
      exact ⟨last, leaked, h, halike⟩

/-- A path reported twice is exported when it is reported for the second time. -/
theorem exports_itself_of_twice :
    let p : Path := .ofString "src/part__0_eth0__20240101T000000.pcap"
    (all ⟨["pcap"]⟩ [p, p] {}).1 = [.recorded, .exporting p false] := by
  decide +kernel

end Dispatch
end CaptureExport
