import Mathlib.Data.Finset.Card
import Mathlib.Data.List.Induction
import CaptureExport.Proofs.Rotation.Tracker

/-! # Races of dispatches

Dispatches for one stream access the tracker twice, and the accesses of different dispatches may
come in any order. A segment that is overwritten before anybody observes it is lost. As many
segments are lost as exports are made twice, and no more than there were leaks.
-/

namespace CaptureExport

/-- An advance that has been made: by which dispatch, from which predecessor, and its answer. -/
structure Swap where
  index : ℕ
  previous : Path
  expected : Bool
  deriving DecidableEq

/-- A race of dispatches for one stream: the tracker, and what has been observed and advanced so
far, in the order of the accesses. -/
structure Race where
  tracker : Tracker
  seen : List (ℕ × Rotation) := []
  swaps : List Swap := []

namespace Race

/-- One access: a dispatch observes its segment, or advances from the predecessor that it has
observed; or something happens to other streams. -/
inductive Step (key : StreamKey) (segments : List Path) : Race → Race → Prop where
  | observe {r : Race} (i : ℕ) {segment : Path} (hi : segments[i]? = some segment)
      (hnew : i ∉ r.seen.map Prod.fst) :
      Step key segments r { r with
        tracker := (r.tracker.observe key segment).2
        seen := r.seen ++ [(i, (r.tracker.observe key segment).1)] }
  | advance {r : Race} (i n : ℕ) (previous : Path) {segment : Path}
      (hi : segments[i]? = some segment)
      (hseen : (i, .superseded previous n) ∈ r.seen) (hnew : i ∉ r.swaps.map Swap.index) :
      Step key segments r { r with
        tracker := (r.tracker.advance key previous segment).2
        swaps := r.swaps ++ [⟨i, previous, (r.tracker.advance key previous segment).1⟩] }
  | elsewhere {r : Race} {t : Tracker} (h : t.slot key = r.tracker.slot key) :
      Step key segments r { r with tracker := t }

inductive Reached (key : StreamKey) (segments : List Path) (t : Tracker) : Race → Prop where
  | start : Reached key segments t { tracker := t }
  | step {r r' : Race} (h : Reached key segments t r) (hs : Step key segments r r') :
      Reached key segments t r'

def predecessor? : ℕ × Rotation → Option Path
  | (_, .superseded previous _) => some previous
  | _ => none

def exported (r : Race) : List Path := r.seen.filterMap predecessor?

/-- The segments that are neither active nor exported. -/
def lost (r : Race) (key : StreamKey) (segments : List Path) : List Path :=
  segments.filter fun p => some p ≠ r.tracker.active? key ∧ p ∉ r.exported

def Finished (r : Race) (segments : List Path) : Prop :=
  ∀ i < segments.length, ∃ rotation, (i, rotation) ∈ r.seen ∧
    ∀ previous n, rotation = .superseded previous n → i ∈ r.swaps.map Swap.index

/-- The dispatches that have written the active segment, in the order of their writes. -/
def writers (r : Race) : List ℕ :=
  (r.seen.head?.map Prod.fst).toList ++ r.swaps.map Swap.index

/-- The last write stands, every observation tells of an earlier write that is overwritten at the
latest by the observer, and an advance that is expected follows the write of its predecessor. -/
structure Invariant (key : StreamKey) (segments : List Path) (r : Race) : Prop where
  slot_eq : r.tracker.slot key =
    ⟨r.seen.length, r.writers.getLast?.bind fun w => segments[w]?⟩
  seen_lt : ∀ o ∈ r.seen, o.1 < segments.length
  seen_nodup : (r.seen.map Prod.fst).Nodup
  writers_nodup : r.writers.Nodup
  writers_seen : ∀ w ∈ r.writers, w ∈ r.seen.map Prod.fst
  first : ∀ o, r.seen[0]? = some o → o.2 = .first
  later : ∀ j o, r.seen[j + 1]? = some o → ∃ p ∈ segments, o.2 = .superseded p (j + 2)
  observed : ∀ i p n, (i, .superseded p n) ∈ r.seen →
    ∃ w ∈ r.writers, segments[w]? = some p ∧ (i ∈ r.writers → r.writers.getLast? ≠ some w)
  swaps_seen : ∀ s ∈ r.swaps, ∃ n, (s.index, .superseded s.previous n) ∈ r.seen
  follows : ∀ (j : ℕ) (s : Swap), r.swaps[j]? = some s → s.expected = true →
    ∃ w, r.writers[j]? = some w ∧ segments[w]? = some s.previous

variable {key : StreamKey} {segments : List Path} {t : Tracker} {r r' : Race}

theorem index_eq_of_alike (hd : segments.Pairwise fun p q => p.alike q = false) {v w : ℕ}
    {p q : Path} (hv : segments[v]? = some p) (hw : segments[w]? = some q) (h : p.alike q) :
    v = w := by
  obtain ⟨hv', rfl⟩ := List.getElem?_eq_some_iff.mp hv
  obtain ⟨hw', rfl⟩ := List.getElem?_eq_some_iff.mp hw
  rw [List.pairwise_iff_getElem] at hd
  rcases Nat.lt_trichotomy v w with hlt | rfl | hlt
  · exact absurd h (by simp [hd v w hv' hw' hlt])
  · rfl
  · have hs := hd w v hw' hv' hlt
    simp only [Path.alike, decide_eq_false_iff_not, decide_eq_true_eq] at hs h
    exact absurd h.symm hs

theorem nodup_of_distinct (hd : segments.Pairwise fun p q => p.alike q = false) :
    segments.Nodup := by
  apply hd.imp
  rintro p q h rfl
  exact absurd p.alike_refl (by simp [h])

theorem length_writers (hs : r.seen ≠ []) : r.writers.length = r.swaps.length + 1 := by
  obtain ⟨o, rest, ho⟩ := List.exists_cons_of_ne_nil hs
  simp [writers, ho]

theorem mem_lost_or {p last : Path} (ha : r.tracker.active? key = some last) (hp : p ∈ segments) :
    p = last ∨ p ∈ r.exported ∨ p ∈ r.lost key segments := by
  by_cases hl : p = last
  · exact Or.inl hl
  · by_cases he : p ∈ r.exported
    · exact Or.inr (Or.inl he)
    · have hn : some p ≠ r.tracker.active? key := by
        intro hq
        exact hl (Option.some.inj (hq.trans ha))
      exact Or.inr (Or.inr (List.mem_filter.mpr ⟨hp, by simp [hn, he]⟩))

namespace Invariant

theorem start (h : t.slot key = {}) : Invariant key segments { tracker := t } where
  slot_eq := h
  seen_lt := by simp
  seen_nodup := by simp
  writers_nodup := by simp [writers]
  writers_seen := by simp [writers]
  first := by simp
  later := by simp
  observed := by simp
  swaps_seen := by simp
  follows := by simp

variable (h : Invariant key segments r)
include h

theorem swaps_eq_nil (hs : r.seen = []) : r.swaps = [] := by
  refine List.eq_nil_iff_forall_not_mem.mpr fun s hm => ?_
  obtain ⟨n, hn⟩ := h.swaps_seen s hm
  simp [hs] at hn

theorem last_writer (hs : r.seen ≠ []) : ∃ w p, r.writers.getLast? = some w ∧ w ∈ r.writers ∧
    segments[w]? = some p ∧ (r.tracker.slot key).active = some p := by
  have hw : r.writers ≠ [] := by
    intro hn
    have hl := length_writers hs
    rw [hn] at hl
    simp at hl
  obtain ⟨w, hlast⟩ := Option.isSome_iff_exists.mp (List.getLast?_isSome.mpr hw)
  have hm : w ∈ r.writers := List.mem_of_getLast? hlast
  obtain ⟨o, ho, rfl⟩ := List.mem_map.mp (h.writers_seen w hm)
  have hlt := h.seen_lt o ho
  exact ⟨o.1, segments[o.1], hlast, hm, List.getElem?_eq_getElem hlt,
    by rw [h.slot_eq, hlast]; simp [hlt]⟩

theorem not_mem_writers {i n : ℕ} {previous : Path}
    (hseen : (i, .superseded previous n) ∈ r.seen) (hnew : i ∉ r.swaps.map Swap.index) :
    i ∉ r.writers := by
  intro hi
  rcases List.mem_append.mp hi with hi | hi
  · cases hs : r.seen with
    | nil => simp [hs] at hseen
    | cons o rest =>
      have hfirst := h.first o (by simp [hs])
      obtain rfl : i = o.1 := by simpa [hs] using hi
      have hn := h.seen_nodup
      rw [hs] at hseen hn
      rcases List.mem_cons.mp hseen with he | hr
      · exact absurd ((congrArg Prod.snd he).trans hfirst) (by simp)
      · simp only [List.map_cons, List.nodup_cons] at hn
        exact hn.1 (List.mem_map.mpr ⟨_, hr, rfl⟩)
  · exact hnew hi

theorem observe_empty {i : ℕ} {segment : Path} (hi : segments[i]? = some segment)
    (hs : r.seen = []) : Invariant key segments { r with
      tracker := (r.tracker.observe key segment).2
      seen := r.seen ++ [(i, (r.tracker.observe key segment).1)] } := by
  have hc : (r.tracker.slot key).count = 0 := by rw [h.slot_eq, hs]; rfl
  have hw := h.swaps_eq_nil hs
  have hlt : i < segments.length := (List.getElem?_eq_some_iff.mp hi).1
  rw [Tracker.observe_first hc]
  exact {
    slot_eq := by simp [writers, hs, hw, hi]
    seen_lt := by simpa [hs] using hlt
    seen_nodup := by simp [hs]
    writers_nodup := by simp [writers, hs, hw]
    writers_seen := by simp [writers, hs, hw]
    first := by simp [hs]
    later := by simp [hs]
    observed := by simp [hs]
    swaps_seen := by simp [hw]
    follows := by simp [hw] }

theorem observe_next (hne : ∀ p ∈ segments, p.bytes ≠ []) {i : ℕ} {segment : Path}
    (hi : segments[i]? = some segment) (hnew : i ∉ r.seen.map Prod.fst) (hs : r.seen ≠ []) :
    Invariant key segments { r with
      tracker := (r.tracker.observe key segment).2
      seen := r.seen ++ [(i, (r.tracker.observe key segment).1)] } := by
  obtain ⟨w, p, hlast, hw, hp, ha⟩ := h.last_writer hs
  have hcount : (r.tracker.slot key).count = r.seen.length := by rw [h.slot_eq]
  have hc : (r.tracker.slot key).count ≠ 0 := by simpa [hcount] using hs
  have hmem : p ∈ segments := List.mem_of_getElem? hp
  have hlt : i < segments.length := (List.getElem?_eq_some_iff.mp hi).1
  have hi' : i ∉ r.writers := fun hm => hnew (h.writers_seen i hm)
  rw [Tracker.observe_superseded hc ha (hne p hmem), hcount]
  have hwriters : writers { r with
      tracker := r.tracker.set key ⟨r.seen.length + 1, some p⟩
      seen := r.seen ++ [(i, .superseded p (r.seen.length + 1))] } = r.writers := by
    simp [writers, List.head?_append_of_ne_nil _ hs]
  constructor
  case slot_eq =>
    rw [hwriters, hlast]
    simp [hp]
  case seen_lt =>
    intro o ho
    rcases List.mem_append.mp ho with ho | ho
    · exact h.seen_lt o ho
    · obtain rfl := List.mem_singleton.mp ho
      exact hlt
  case seen_nodup =>
    rw [List.map_append, List.map_singleton]
    exact List.nodup_append_comm.mp (List.nodup_cons.mpr ⟨hnew, h.seen_nodup⟩)
  case writers_nodup =>
    rw [hwriters]
    exact h.writers_nodup
  case writers_seen =>
    rw [hwriters]
    intro v hv
    rw [List.map_append]
    exact List.mem_append_left _ (h.writers_seen v hv)
  case first =>
    intro o ho
    rw [List.getElem?_append_left (List.length_pos_of_ne_nil hs)] at ho
    exact h.first o ho
  case later =>
    intro j o ho
    rcases Nat.lt_or_ge (j + 1) r.seen.length with hj | hj
    · rw [List.getElem?_append_left hj] at ho
      exact h.later j o ho
    · rw [List.getElem?_append_right hj] at ho
      obtain ⟨hz, rfl⟩ := List.getElem?_eq_some_iff.mp ho
      have hj' : r.seen.length = j + 1 := by
        simp only [List.length_singleton] at hz
        omega
      exact ⟨p, hmem, by simp [hj']⟩
  case observed =>
    intro i' p' n' hm
    rw [hwriters]
    rcases List.mem_append.mp hm with hm | hm
    · exact h.observed i' p' n' hm
    · simp only [List.mem_singleton, Prod.mk.injEq, Rotation.superseded.injEq] at hm
      obtain ⟨rfl, rfl, rfl⟩ := hm
      exact ⟨w, hw, hp, fun hmem => absurd hmem hi'⟩
  case swaps_seen =>
    intro s hsw
    obtain ⟨n, hn⟩ := h.swaps_seen s hsw
    exact ⟨n, List.mem_append_left _ hn⟩
  case follows =>
    rw [hwriters]
    exact h.follows

theorem advance (hd : segments.Pairwise fun p q => p.alike q = false) {i n : ℕ}
    {segment previous : Path} (hi : segments[i]? = some segment)
    (hseen : (i, .superseded previous n) ∈ r.seen) (hnew : i ∉ r.swaps.map Swap.index) :
    Invariant key segments { r with
      tracker := (r.tracker.advance key previous segment).2
      swaps := r.swaps ++ [⟨i, previous, (r.tracker.advance key previous segment).1⟩] } := by
  have hs : r.seen ≠ [] := List.ne_nil_of_mem hseen
  have hi' := h.not_mem_writers hseen hnew
  obtain ⟨v, q, hlast, -, hq, ha⟩ := h.last_writer hs
  obtain ⟨w, hw, hp, -⟩ := h.observed i previous n hseen
  have hwriters : writers { r with
      tracker := (r.tracker.advance key previous segment).2
      swaps := r.swaps ++ [⟨i, previous, (r.tracker.advance key previous segment).1⟩] } =
        r.writers ++ [i] := by
    simp [writers]
  constructor
  case slot_eq =>
    rw [hwriters, Tracker.slot_advance_self, h.slot_eq]
    simp [hi]
  case seen_lt => exact h.seen_lt
  case seen_nodup => exact h.seen_nodup
  case writers_nodup =>
    rw [hwriters]
    exact List.nodup_append_comm.mp (List.nodup_cons.mpr ⟨hi', h.writers_nodup⟩)
  case writers_seen =>
    rw [hwriters]
    intro u hu
    rcases List.mem_append.mp hu with hu | hu
    · exact h.writers_seen u hu
    · obtain rfl := List.mem_singleton.mp hu
      exact List.mem_map.mpr ⟨_, hseen, rfl⟩
  case first => exact h.first
  case later => exact h.later
  case observed =>
    intro i' p' n' hm
    obtain ⟨u, hu, hp', -⟩ := h.observed i' p' n' hm
    rw [hwriters]
    refine ⟨u, List.mem_append_left _ hu, hp', fun _ he => ?_⟩
    rw [List.getLast?_concat] at he
    exact hi' (Option.some.inj he ▸ hu)
  case swaps_seen =>
    intro s hsw
    rcases List.mem_append.mp hsw with hsw | hsw
    · exact h.swaps_seen s hsw
    · obtain rfl := List.mem_singleton.mp hsw
      exact ⟨n, hseen⟩
  case follows =>
    intro j s hj he
    have hl := length_writers hs
    rw [hwriters]
    rcases Nat.lt_or_ge j r.swaps.length with hlt | hge
    · rw [List.getElem?_append_left hlt] at hj
      obtain ⟨u, hu, hp'⟩ := h.follows j s hj he
      exact ⟨u, by rwa [List.getElem?_append_left (by omega)], hp'⟩
    · rw [List.getElem?_append_right hge] at hj
      obtain ⟨hz, rfl⟩ := List.getElem?_eq_some_iff.mp hj
      obtain rfl : j = r.swaps.length := by
        simp only [List.length_singleton] at hz
        omega
      -- The advance is expected only if the last write was that of its predecessor.
      simp only [Nat.sub_self, List.getElem_cons_zero] at he ⊢
      rw [Tracker.advance_fst ha] at he
      obtain rfl := index_eq_of_alike hd hq hp he
      refine ⟨v, ?_, hp⟩
      rw [List.getElem?_append_left (by omega), ← hlast, List.getLast?_eq_getElem?, hl]
      rfl

/-- No two expected advances have the same predecessor. -/
theorem expected_pairwise (hd : segments.Pairwise fun p q => p.alike q = false) :
    (r.swaps.filter Swap.expected).Pairwise fun a b => a.previous ≠ b.previous := by
  rw [List.pairwise_filter, List.pairwise_iff_getElem]
  intro i j hi hj hlt hwi hwj he
  obtain ⟨v, hv, hp⟩ := h.follows i _ (List.getElem?_eq_getElem hi) hwi
  obtain ⟨w, hw, hq⟩ := h.follows j _ (List.getElem?_eq_getElem hj) hwj
  obtain rfl := index_eq_of_alike hd hp hq (he ▸ Path.alike_refl _)
  obtain ⟨hvi, hvi'⟩ := List.getElem?_eq_some_iff.mp hv
  obtain ⟨hwj, hwj'⟩ := List.getElem?_eq_some_iff.mp hw
  have hij : i = j := h.writers_nodup.getElem_inj_iff.mp (hvi'.trans hwj'.symm)
  omega

theorem mem_exported {p : Path} (hp : p ∈ r.exported) :
    ∃ i n, (i, .superseded p n) ∈ r.seen ∧ p ∈ segments := by
  obtain ⟨⟨i, rotation⟩, hm, ho⟩ := List.mem_filterMap.mp hp
  cases rotation with
  | superseded q n =>
    obtain rfl := Option.some.inj ho
    obtain ⟨w, _, hq, _⟩ := h.observed i q n hm
    exact ⟨i, n, hm, List.mem_of_getElem? hq⟩
  | first => cases ho
  | orphaned n => cases ho

theorem expected_subset : (r.swaps.filter Swap.expected).map Swap.previous ⊆ r.exported := by
  intro p hp
  obtain ⟨s, hs, rfl⟩ := List.mem_map.mp hp
  obtain ⟨n, hn⟩ := h.swaps_seen s (List.mem_filter.mp hs).1
  exact List.mem_filterMap.mpr ⟨_, hn, rfl⟩

theorem expected_le_one (hd : segments.Pairwise fun p q => p.alike q = false) (p : Path) :
    (r.swaps.filter fun s => s.previous = p ∧ s.expected).length ≤ 1 := by
  have hw := (h.expected_pairwise hd).filter fun s => decide (s.previous = p)
  rw [List.filter_filter] at hw
  have he : (fun s : Swap => decide (s.previous = p ∧ s.expected = true)) =
      fun s => decide (s.previous = p) && s.expected := by
    ext s
    simp [Bool.decide_and]
  rw [he]
  generalize hl : r.swaps.filter (fun s => decide (s.previous = p) && s.expected) = l at hw
  have hall : ∀ s ∈ l, s.previous = p := by
    intro s hs
    rw [← hl, List.mem_filter, Bool.and_eq_true, decide_eq_true_eq] at hs
    exact hs.2.1
  cases l with
  | nil => exact Nat.zero_le 1
  | cons a l =>
    cases l with
    | nil => exact Nat.le_refl 1
    | cons b l =>
      have hab := (List.pairwise_cons.mp hw).1 b List.mem_cons_self
      exact absurd ((hall a (by simp)).trans (hall b (by simp)).symm) hab

theorem length_expected_le (hd : segments.Pairwise fun p q => p.alike q = false) :
    (r.swaps.filter Swap.expected).length ≤ r.exported.toFinset.card := by
  have hn : ((r.swaps.filter Swap.expected).map Swap.previous).Nodup :=
    List.pairwise_map.mpr (h.expected_pairwise hd)
  rw [← List.length_map (f := Swap.previous), ← List.toFinset_card_of_nodup hn]
  apply Finset.card_le_card
  intro p hp
  exact List.mem_toFinset.mpr (h.expected_subset (List.mem_toFinset.mp hp))

theorem length_exported (hs : r.seen ≠ []) : r.exported.length + 1 = r.seen.length := by
  obtain ⟨o, rest, ho⟩ := List.exists_cons_of_ne_nil hs
  have hfirst : predecessor? o = none := by
    have hf := h.first o (by simp [ho])
    obtain ⟨i, rotation⟩ := o
    obtain rfl : rotation = .first := hf
    rfl
  have hrest : ∀ e ∈ rest, (predecessor? e).isSome := by
    intro e he
    obtain ⟨j, hj, rfl⟩ := List.mem_iff_getElem.mp he
    obtain ⟨p, _, hp⟩ := h.later j rest[j] (by simp [ho, hj])
    have hr : rest[j] = (rest[j].1, .superseded p (j + 2)) := Prod.ext rfl hp
    rw [hr]
    rfl
  rw [exported, ho, List.filterMap_cons_none hfirst, List.length_cons,
    List.length_filterMap_eq_countP, List.countP_eq_length.mpr hrest]

variable (hf : r.Finished segments)
include hf

theorem seen_perm : (r.seen.map Prod.fst).Perm (List.range segments.length) := by
  rw [List.perm_ext_iff_of_nodup h.seen_nodup List.nodup_range]
  intro i
  rw [List.mem_range]
  constructor
  · intro hi
    obtain ⟨o, ho, rfl⟩ := List.mem_map.mp hi
    exact h.seen_lt o ho
  · intro hi
    obtain ⟨rotation, hm, -⟩ := hf i hi
    exact List.mem_map.mpr ⟨_, hm, rfl⟩

theorem length_seen : r.seen.length = segments.length := by
  simpa using (h.seen_perm hf).length_eq

theorem writers_perm : r.writers.Perm (List.range segments.length) := by
  rw [List.perm_ext_iff_of_nodup h.writers_nodup List.nodup_range]
  intro i
  rw [List.mem_range]
  constructor
  · intro hi
    obtain ⟨o, ho, rfl⟩ := List.mem_map.mp (h.writers_seen i hi)
    exact h.seen_lt o ho
  · intro hi
    obtain ⟨rotation, hm, hswap⟩ := hf i hi
    obtain ⟨j, hj, he⟩ := List.mem_iff_getElem.mp hm
    cases j with
    | zero =>
      have hh : r.seen.head? = some (i, rotation) := by
        rw [List.head?_eq_getElem?, List.getElem?_eq_getElem hj, he]
      exact List.mem_append_left _ (by simp [hh])
    | succ j =>
      obtain ⟨p, _, hp⟩ := h.later j _ (List.getElem?_eq_getElem hj)
      rw [he] at hp
      exact List.mem_append_right _ (hswap p (j + 2) hp)

theorem length_swaps (hs : segments ≠ []) : r.swaps.length + 1 = segments.length := by
  have hseen : r.seen ≠ [] := by
    intro hn
    have hl := h.length_seen hf
    rw [hn] at hl
    exact hs (List.length_eq_zero_iff.mp hl.symm)
  rw [← length_writers hseen]
  simpa using (h.writers_perm hf).length_eq

theorem active_not_exported (hd : segments.Pairwise fun p q => p.alike q = false) {last : Path}
    (ha : r.tracker.active? key = some last) : last ∉ r.exported := by
  intro hm
  obtain ⟨i, n, hseen, -⟩ := h.mem_exported hm
  obtain ⟨w, _, hp, hnot⟩ := h.observed i last n hseen
  obtain ⟨v, q, hlast, _, hq, hactive⟩ := h.last_writer (List.ne_nil_of_mem hseen)
  obtain rfl : last = q := Option.some.inj (ha.symm.trans hactive)
  obtain rfl := index_eq_of_alike hd hp hq last.alike_refl
  have hi : i ∈ List.range segments.length :=
    List.mem_range.mpr (h.seen_lt _ hseen)
  exact hnot ((h.writers_perm hf).mem_iff.mpr hi) hlast

theorem length_lost (hd : segments.Pairwise fun p q => p.alike q = false) {last : Path}
    (ha : r.tracker.active? key = some last) (hm : last ∈ segments) :
    (r.lost key segments).length + 1 + r.exported.toFinset.card = segments.length := by
  have hnodup := nodup_of_distinct hd
  have hlost : (r.lost key segments).toFinset =
      segments.toFinset \ insert last r.exported.toFinset := by
    ext p
    have hl : ¬ some p = r.tracker.active? key ↔ ¬ p = last := by rw [ha]; simp
    simp [lost, hl, and_comm]
  have hsub : insert last r.exported.toFinset ⊆ segments.toFinset := by
    intro p hp
    rcases Finset.mem_insert.mp hp with rfl | hp
    · exact List.mem_toFinset.mpr hm
    · obtain ⟨_, _, _, hp⟩ := h.mem_exported (List.mem_toFinset.mp hp)
      exact List.mem_toFinset.mpr hp
  have hcard := Finset.card_sdiff_add_card_eq_card hsub
  have hnotin : last ∉ r.exported.toFinset := fun hl =>
    h.active_not_exported hf hd ha (List.mem_toFinset.mp hl)
  have hlostNodup : (r.lost key segments).Nodup := hnodup.filter _
  rw [← hlost, List.toFinset_card_of_nodup hlostNodup, Finset.card_insert_of_notMem hnotin,
    List.toFinset_card_of_nodup hnodup] at hcard
  omega

end Invariant

theorem Step.invariant (hd : segments.Pairwise fun p q => p.alike q = false)
    (hne : ∀ p ∈ segments, p.bytes ≠ []) (hs : Step key segments r r')
    (h : Invariant key segments r) : Invariant key segments r' := by
  cases hs with
  | observe i hi hnew =>
    by_cases hs : r.seen = []
    · exact h.observe_empty hi hs
    · exact h.observe_next hne hi hnew hs
  | advance i n previous hi hseen hnew => exact h.advance hd hi hseen hnew
  | elsewhere ht => exact { h with slot_eq := ht.trans h.slot_eq }

theorem Reached.invariant (hd : segments.Pairwise fun p q => p.alike q = false)
    (hne : ∀ p ∈ segments, p.bytes ≠ []) (ht : t.slot key = {}) (h : Reached key segments t r) :
    Invariant key segments r := by
  induction h with
  | start => exact .start ht
  | step _ hs ih => exact hs.invariant hd hne ih

/-- When all dispatches of a race have ended, the active segment has not been exported, and as many
segments are lost as exports were made twice, which is at most the number of leaks. -/
theorem conservation (hd : segments.Pairwise fun p q => p.alike q = false)
    (hne : ∀ p ∈ segments, p.bytes ≠ []) (hpos : segments ≠ []) (ht : t.slot key = {})
    (h : Reached key segments t r) :
    (∀ j o, r.seen[j]? = some o → (j = 0 → o.2 = .first) ∧
        (j ≠ 0 → ∃ p ∈ segments, o.2 = .superseded p (j + 1))) ∧
      (∀ p, (r.swaps.filter fun s => s.previous = p ∧ s.expected).length ≤ 1) ∧
      (r.swaps = [] → ∀ o, r.seen.head? = some o → r.tracker.active? key = segments[o.1]?) ∧
      (∀ s, r.swaps.getLast? = some s → r.tracker.active? key = segments[s.index]?) ∧
      (r.Finished segments →
        (r.seen.map Prod.fst).Perm (List.range segments.length) ∧
        ∃ last ∈ segments, r.tracker.active? key = some last ∧ last ∉ r.exported ∧
          (∀ p ∈ segments, p = last ∨ p ∈ r.exported ∨ p ∈ r.lost key segments) ∧
          (r.lost key segments).length ≤ (r.swaps.filter fun s => !s.expected).length ∧
          r.exported.length = segments.length - 1 ∧
          (r.lost key segments).length =
            (segments.length - 1) - r.exported.toFinset.card) := by
  have hi := h.invariant hd hne ht
  have hactive : r.tracker.active? key = r.writers.getLast?.bind fun w => segments[w]? := by
    rw [Tracker.active?, hi.slot_eq]
  refine ⟨fun j o ho => ⟨?_, fun hj => ?_⟩, hi.expected_le_one hd, fun hs o ho => ?_,
    fun s hs => ?_, fun hf => ⟨hi.seen_perm hf, ?_⟩⟩
  · rintro rfl
    exact hi.first o ho
  · obtain ⟨j, rfl⟩ := Nat.exists_eq_succ_of_ne_zero hj
    exact hi.later j o ho
  · rw [hactive]
    simp [writers, hs, ho]
  · rw [hactive, writers, List.getLast?_append, List.getLast?_map, hs]
    rfl
  · have hlen := hi.length_seen hf
    have hseen : r.seen ≠ [] := by
      intro hn
      rw [hn] at hlen
      exact hpos (List.length_eq_zero_iff.mp hlen.symm)
    obtain ⟨w, last, _, _, hp, ha⟩ := hi.last_writer hseen
    have hm : last ∈ segments := List.mem_of_getElem? hp
    have hlost := hi.length_lost hf hd ha hm
    have hexported := hi.length_exported hseen
    have hswaps := hi.length_swaps hf hpos
    have hexpected := hi.length_expected_le hd
    have hsplit := List.length_eq_length_filter_add (l := r.swaps) Swap.expected
    exact ⟨last, hm, ha, hi.active_not_exported hf hd ha, fun p hp => mem_lost_or ha hp, by omega,
      by omega, by omega⟩

/-- Two dispatches overlap: both export the first segment, and the second one is lost. -/
theorem conservation_of_overlap : ∃ r, Reached ⟨0, "", ""⟩ [⟨[97]⟩, ⟨[98]⟩, ⟨[99]⟩] {} r ∧
    r.Finished [⟨[97]⟩, ⟨[98]⟩, ⟨[99]⟩] ∧ r.exported = [⟨[97]⟩, ⟨[97]⟩] ∧
      (r.lost ⟨0, "", ""⟩ [⟨[97]⟩, ⟨[98]⟩, ⟨[99]⟩]).length = 1 := by
  obtain ⟨r, hr, hf, he⟩ : ∃ r, Reached ⟨0, "", ""⟩ [⟨[97]⟩, ⟨[98]⟩, ⟨[99]⟩] {} r ∧
      r.Finished [⟨[97]⟩, ⟨[98]⟩, ⟨[99]⟩] ∧ r.exported = [⟨[97]⟩, ⟨[97]⟩] := by
    have h : Reached ⟨0, "", ""⟩ [⟨[97]⟩, ⟨[98]⟩, ⟨[99]⟩] {} { tracker := {} } := .start
    have h₀ := h.step (.observe 0 rfl (by decide))
    have h₁ := h₀.step (.observe 1 rfl (by decide))
    have h₂ := h₁.step (.observe 2 rfl (by decide))
    have h₃ := h₂.step (.advance 1 2 ⟨[97]⟩ rfl (by decide) (by decide))
    have h₄ := h₃.step (.advance 2 3 ⟨[97]⟩ rfl (by decide) (by decide))
    refine ⟨_, h₄, fun i hi => ?_, by decide⟩
    match i with
    | 0 => exact ⟨.first, by decide, by simp⟩
    | 1 => exact ⟨.superseded ⟨[97]⟩ 2, by decide, fun _ _ _ => by decide⟩
    | 2 => exact ⟨.superseded ⟨[97]⟩ 3, by decide, fun _ _ _ => by decide⟩
  have hc := conservation (by decide) (by decide) (by decide) rfl hr
  obtain ⟨-, -, -, -, -, -, -, -, hlost⟩ := hc.2.2.2.2 hf
  refine ⟨r, hr, hf, he, ?_⟩
  rw [hlost, he]
  decide

end Race
end CaptureExport
