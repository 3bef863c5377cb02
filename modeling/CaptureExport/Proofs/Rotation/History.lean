import Mathlib.Data.Finset.Card
import Mathlib.Data.List.Induction
import CaptureExport.Proofs.Rotation.Tracker

/-! # Histories of the tracker

Whatever is called on a tracker, in whatever order and with whatever paths, its answers and its
state can be told from the calls before: how often a stream was observed, which path was written
for it last, and which streams were observed or advanced at all.
-/

namespace CaptureExport.Tracker

inductive Call where
  | observe (key : StreamKey) (segment : Path)
  | advance (key : StreamKey) (previous segment : Path)
  | look (key : StreamKey)
  | size
  deriving DecidableEq

inductive Answer where
  | rotation (r : Rotation)
  | advanced (expected : Bool)
  | seen (active : Option Path) (count : ℕ)
  | size (n : ℕ)
  deriving DecidableEq

def Call.key? : Call → Option StreamKey
  | .observe key _ | .advance key _ _ | .look key => some key
  | .size => none

def perform (t : Tracker) : Call → Answer × Tracker
  | .observe key segment => ((t.observe key segment).map .rotation id)
  | .advance key previous segment => ((t.advance key previous segment).map .advanced id)
  | .look key => (.seen (t.active? key) (t.count key), t)
  | .size => (.size t.size, t)

/-- A tracker with the calls made so far and their answers. -/
structure History where
  tracker : Tracker := {}
  log : List (Call × Answer) := []

namespace History

def call (h : History) (c : Call) : History :=
  ⟨(h.tracker.perform c).2, h.log ++ [(c, (h.tracker.perform c).1)]⟩

def ofCalls (calls : List Call) : History := calls.foldl call {}

end History

/-! ## What a log tells -/

section Log

variable (key : StreamKey)

def isObservation : Call × Answer → Bool
  | (.observe k _, _) => k = key
  | _ => false

/-- The path that a call has written for a stream: every advance writes, and an observation does
unless there was a segment to be superseded. -/
def written? : Call × Answer → Option Path
  | (.observe k segment, .rotation .first) | (.observe k segment, .rotation (.orphaned _))
  | (.advance k _ segment, _) => if k = key then some segment else none
  | _ => none

def observations (log : List (Call × Answer)) : ℕ := log.countP (isObservation key)

def lastWritten? (log : List (Call × Answer)) : Option Path :=
  (log.filterMap (written? key)).getLast?

end Log

/-- The stream that a call registers: only reading registers none. -/
def registered? : Call × Answer → Option StreamKey
  | (.observe key _, _) | (.advance key _ _, _) => some key
  | _ => none

def registered (log : List (Call × Answer)) : Finset StreamKey :=
  (log.filterMap registered?).toFinset

/-- The answer to a call, as the calls before tell it. -/
inductive Tells (log : List (Call × Answer)) : Call → Answer → Prop
  | first {key : StreamKey} {segment : Path} (h : observations key log = 0) :
      Tells log (.observe key segment) (.rotation .first)
  | orphaned {key : StreamKey} {segment : Path} (h : observations key log ≠ 0)
      (ha : ∀ p ∈ lastWritten? key log, p.bytes = []) :
      Tells log (.observe key segment) (.rotation (.orphaned (observations key log + 1)))
  | superseded {key : StreamKey} {segment p : Path} (h : observations key log ≠ 0)
      (ha : p ∈ lastWritten? key log) (hp : p.bytes ≠ []) :
      Tells log (.observe key segment) (.rotation (.superseded p (observations key log + 1)))
  | advanced {key : StreamKey} {previous segment : Path} {expected : Bool}
      (h : expected = true ↔ ∃ p ∈ lastWritten? key log, p.components = previous.components) :
      Tells log (.advance key previous segment) (.advanced expected)
  | seen {key : StreamKey} :
      Tells log (.look key) (.seen (lastWritten? key log) (observations key log))
  | size : Tells log .size (.size (registered log).card)

/-- The state of a tracker, as a log tells it. -/
structure Accounts (log : List (Call × Answer)) (t : Tracker) : Prop where
  slot_eq : ∀ key, t.slot key = ⟨observations key log, lastWritten? key log⟩
  nodup : (t.slots.map Prod.fst).Nodup
  mem_iff : ∀ key, key ∈ t.slots.map Prod.fst ↔ key ∈ registered log

variable {t u : Tracker} {key other : StreamKey} {s : Slot} {segment : Path} {c : Call}
  {a b : Answer} {log : List (Call × Answer)} {e : Call × Answer}

theorem Tells.unique (h : Tells log c a) (h' : Tells log c b) : a = b := by
  cases h with
  | first h =>
    cases h' with
    | first => rfl
    | orphaned hn | superseded hn => exact absurd h hn
  | orphaned hn ha =>
    cases h' with
    | first h => exact absurd h hn
    | orphaned => rfl
    | superseded _ hp hne => exact absurd (ha _ hp) hne
  | superseded hn hp hne =>
    cases h' with
    | first h => exact absurd h hn
    | orphaned _ ha => exact absurd (ha _ hp) hne
    | superseded _ hq => rw [Option.mem_unique hp hq]
  | advanced h =>
    cases h' with
    | advanced h' => exact congrArg Answer.advanced (Bool.eq_iff_iff.mpr (h.trans h'.symm))
  | seen => cases h'; rfl
  | size => cases h'; rfl

/-! ## One more call in the log -/

theorem observations_concat :
    observations key (log ++ [e]) = observations key log + (isObservation key e).toNat := by
  cases h : isObservation key e <;> simp [observations, h]

theorem lastWritten?_concat :
    lastWritten? key (log ++ [e]) = (written? key e).or (lastWritten? key log) := by
  rw [lastWritten?, List.filterMap_append, List.getLast?_append]
  cases h : written? key e <;> simp [h, lastWritten?]

theorem mem_registered_concat :
    key ∈ registered (log ++ [e]) ↔ key ∈ registered log ∨ registered? e = some key := by
  simp [registered]

theorem elsewhere (h : registered? e ≠ some key) :
    isObservation key e = false ∧ written? key e = none := by
  obtain ⟨c, a⟩ := e
  cases c with
  | observe k segment =>
    have hk : k ≠ key := fun hk => h (congrArg some hk)
    refine ⟨decide_eq_false hk, ?_⟩
    cases a with
    | rotation r => cases r <;> simp [written?, hk]
    | _ => rfl
  | advance k previous segment =>
    have hk : k ≠ key := fun hk => h (congrArg some hk)
    exact ⟨rfl, if_neg hk⟩
  | look | size => exact ⟨rfl, rfl⟩

/-! ## One more call -/

namespace Accounts

theorem start : Accounts [] {} := ⟨fun _ => rfl, List.nodup_nil, fun _ => by simp [registered]⟩

theorem size_eq (h : Accounts log t) : t.size = (registered log).card := by
  have hkeys : registered log = (t.slots.map Prod.fst).toFinset := by
    ext key
    rw [List.mem_toFinset, h.mem_iff]
  rw [hkeys, List.toFinset_card_of_nodup h.nodup, List.length_map]
  rfl

theorem read (h : Accounts log t) (he : registered? e = none) : Accounts (log ++ [e]) t where
  slot_eq key := by
    obtain ⟨hobserved, hwritten⟩ := @elsewhere key e (by simp [he])
    rw [h.slot_eq, observations_concat, lastWritten?_concat, hobserved, hwritten]
    rfl
  nodup := h.nodup
  mem_iff key := by rw [mem_registered_concat, h.mem_iff, he]; simp

theorem set (h : Accounts log t) (he : registered? e = some key)
    (hs : s = ⟨observations key (log ++ [e]), lastWritten? key (log ++ [e])⟩) :
    Accounts (log ++ [e]) (t.set key s) where
  slot_eq other := by
    by_cases hk : other = key
    · rw [hk, slot_set_self, hs]
    · have hne : registered? e ≠ some other := fun ho => hk (Option.some.inj (ho.symm.trans he))
      obtain ⟨hobserved, hwritten⟩ := elsewhere hne
      rw [slot_set_of_ne hk, h.slot_eq, observations_concat, lastWritten?_concat, hobserved,
        hwritten]
      rfl
  nodup := by
    rw [keys_set]
    split
    · exact h.nodup
    · rename_i hn
      rw [← List.concat_eq_append]
      exact h.nodup.concat hn
  mem_iff other := by
    rw [keys_set, mem_registered_concat, ← h.mem_iff, he, Option.some.injEq, eq_comm]
    split
    · rename_i hm
      exact ⟨Or.inl, fun ho => ho.elim id fun hk => hk ▸ hm⟩
    · rw [List.mem_append, List.mem_singleton]

/-- An observation is told by the calls before, and leaves the state that they and it tell. -/
theorem observe (h : Accounts log t) (key : StreamKey) (segment : Path) :
    let r := (t.observe key segment).1
    Tells log (.observe key segment) (.rotation r) ∧
      Accounts (log ++ [(.observe key segment, .rotation r)]) (t.observe key segment).2 := by
  have hslot := h.slot_eq key
  by_cases hc : observations key log = 0
  · have hcount : (t.slot key).count = 0 := by rw [hslot]; exact hc
    rw [observe_first hcount]
    refine ⟨.first hc, h.set rfl ?_⟩
    simp [observations_concat, lastWritten?_concat, isObservation, written?, hc]
  · have hcount : (t.slot key).count ≠ 0 := by rw [hslot]; exact hc
    by_cases ha : ∀ p ∈ lastWritten? key log, p.bytes = []
    · rw [observe_orphaned hcount (by rw [hslot]; exact ha), hslot]
      refine ⟨.orphaned hc ha, h.set rfl ?_⟩
      simp [observations_concat, lastWritten?_concat, isObservation, written?]
    · push Not at ha
      obtain ⟨p, hp, hne⟩ := ha
      rw [observe_superseded hcount (by rw [hslot]; exact hp) hne, hslot]
      refine ⟨.superseded hc hp hne, h.set rfl ?_⟩
      simp [observations_concat, lastWritten?_concat, isObservation, written?,
        Option.mem_def.mp hp]

theorem advance (h : Accounts log t) (key : StreamKey) (previous segment : Path) :
    let b := (t.advance key previous segment).1
    Tells log (.advance key previous segment) (.advanced b) ∧
      Accounts (log ++ [(.advance key previous segment, .advanced b)])
        (t.advance key previous segment).2 := by
  refine ⟨.advanced ?_, h.set rfl ?_⟩
  · simp only [Tracker.advance, h.slot_eq]
    cases lastWritten? key log <;> simp [Path.alike]
  · simp [observations_concat, lastWritten?_concat, isObservation, written?, h.slot_eq]

theorem step (h : Accounts log t) (c : Call) : Tells log c (t.perform c).1 ∧
    Accounts (log ++ [(c, (t.perform c).1)]) (t.perform c).2 := by
  cases c with
  | observe key segment => exact h.observe key segment
  | advance key previous segment => exact h.advance key previous segment
  | look key =>
    refine ⟨?_, h.read rfl⟩
    simp only [perform, active?, count, h.slot_eq]
    exact .seen
  | size =>
    refine ⟨?_, h.read rfl⟩
    simp only [perform, h.size_eq]
    exact .size

end Accounts

/-! ## Streams on their own -/

theorem perform_elsewhere (hk : c.key? ≠ some key) : (t.perform c).2.slot key = t.slot key := by
  cases c with
  | observe k segment =>
    have hne : key ≠ k := fun he => hk (congrArg some he.symm)
    simp only [perform, observe, Prod.map_snd, id]
    split
    · exact slot_set_of_ne hne
    · split
      · split <;> exact slot_set_of_ne hne
      · exact slot_set_of_ne hne
  | advance k previous segment => exact slot_set_of_ne fun he => hk (congrArg some he.symm)
  | look | size => rfl

theorem perform_congr (hk : c.key? = some key) (h : t.slot key = u.slot key) :
    (t.perform c).1 = (u.perform c).1 ∧ (t.perform c).2.slot key = (u.perform c).2.slot key := by
  cases c with
  | observe k segment =>
    obtain rfl : k = key := Option.some.inj hk
    simp only [perform, observe, Prod.map_fst, Prod.map_snd, id, h]
    split
    · simp
    · split
      · split <;> simp
      · simp
  | advance k previous segment =>
    obtain rfl : k = key := Option.some.inj hk
    simp [perform, advance, h]
  | look k =>
    obtain rfl : k = key := Option.some.inj hk
    simp [perform, active?, count, h]
  | size => cases hk

/-! ## Whole histories -/

namespace History

variable {calls : List Call}

theorem ofCalls_concat : ofCalls (calls ++ [c]) = (ofCalls calls).call c := List.foldl_concat ..

theorem accounts (calls : List Call) : Accounts (ofCalls calls).log (ofCalls calls).tracker := by
  induction calls using List.reverseRecOn with
  | nil => exact .start
  | append_singleton calls c ih =>
    rw [ofCalls_concat]
    exact (ih.step c).2

theorem map_fst_log (calls : List Call) : (ofCalls calls).log.map Prod.fst = calls := by
  induction calls using List.reverseRecOn with
  | nil => rfl
  | append_singleton calls c ih =>
    rw [ofCalls_concat, call, List.map_append, ih]
    rfl

theorem tells {before after : List (Call × Answer)}
    (h : (ofCalls calls).log = before ++ (c, a) :: after) : Tells before c a := by
  induction calls using List.reverseRecOn generalizing after with
  | nil => simp [ofCalls] at h
  | append_singleton calls d ih =>
    rw [ofCalls_concat, call] at h
    rcases after.eq_nil_or_concat' with rfl | ⟨rest, last, rfl⟩
    · obtain ⟨rfl, he⟩ := List.append_inj' h rfl
      cases he
      exact ((accounts calls).step c).1
    · rw [← List.cons_append, ← List.append_assoc] at h
      exact ih (List.append_inj' h rfl).1

/-- The calls for a stream get the same answers, and leave the same slot, without all others. -/
theorem alone (key : StreamKey) (calls : List Call) :
    let own := ofCalls (calls.filter fun c => c.key? = some key)
    (ofCalls calls).log.filter (fun e => e.1.key? = some key) = own.log ∧
      (ofCalls calls).tracker.slot key = own.tracker.slot key := by
  induction calls using List.reverseRecOn with
  | nil => exact ⟨rfl, rfl⟩
  | append_singleton calls c ih =>
    obtain ⟨hlog, hslot⟩ := ih
    rw [ofCalls_concat, List.filter_append]
    by_cases hk : c.key? = some key
    · obtain ⟨hanswer, hafter⟩ := perform_congr hk hslot
      have hown : [c].filter (fun c => c.key? = some key) = [c] := by simp [hk]
      rw [hown, ofCalls_concat]
      simp [call, hlog, hanswer, hafter, hk]
    · have hown : [c].filter (fun c => c.key? = some key) = [] := by simp [hk]
      rw [hown, List.append_nil]
      simp [call, hlog, hslot, perform_elsewhere hk, hk]

end History

/-- The answer to each call, and the state after all of them, are those that the calls before tell;
the calls for other streams make no difference but to the number of streams. -/
theorem told_by_calls (calls : List Call) :
    let h := History.ofCalls calls
    h.log.map Prod.fst = calls ∧
    (∀ before c a after, h.log = before ++ (c, a) :: after → ∀ b, Tells before c b ↔ b = a) ∧
    (∀ key, h.tracker.count key = observations key h.log ∧
      h.tracker.active? key = lastWritten? key h.log) ∧
    h.tracker.size = (registered h.log).card ∧
    ∀ key, let own := History.ofCalls (calls.filter fun c => c.key? = some key)
      h.log.filter (fun e => e.1.key? = some key) = own.log ∧
        h.tracker.slot key = own.tracker.slot key := by
  intro h
  have haccounts : Accounts h.log h.tracker := History.accounts calls
  refine ⟨History.map_fst_log calls, fun before c a after hlog b => ?_, fun key => ?_,
    haccounts.size_eq, fun key => History.alone key calls⟩
  · have ha : Tells before c a := History.tells hlog
    exact ⟨fun hb => hb.unique ha, fun hb => hb ▸ ha⟩
  · rw [Tracker.count, active?, haccounts.slot_eq]
    exact ⟨rfl, rfl⟩

example :
    let k : StreamKey := ⟨0, "s", "e"⟩
    (History.ofCalls [.advance k ⟨[97]⟩ ⟨[98]⟩, .look k, .observe k ⟨[99]⟩,
      .advance k ⟨[99, 47]⟩ ⟨[]⟩, .observe k ⟨[100]⟩, .look k, .size]).log.map Prod.snd =
    [.advanced false, .seen (some ⟨[98]⟩) 0, .rotation .first,
      .advanced true, .rotation (.orphaned 2), .seen (some ⟨[100]⟩) 2, .size 1] := by
  decide +kernel

end CaptureExport.Tracker
