import Mathlib.Data.Fin.VecNotation
import Mathlib.Data.Fintype.Basic
import Mathlib.Data.List.Infix
import Mathlib.Logic.Function.Basic
import CaptureExport.Shutdown.Lifecycle

/-! # Calls that share a trigger

The watcher, the coordinator and the end of a run share one trigger. Their calls access the state,
the flag and the token one after another, and other calls may come in between. Whatever the
order, the state makes each of its moves once, and a single fire cancels the token.
-/

namespace CaptureExport

namespace LifecycleState

def trail : LifecycleState → List (LifecycleState × LifecycleState)
  | active => []
  | draining => [(active, draining)]
  | terminated => [(active, draining), (draining, terminated)]

theorem trail_of_canMoveTo {a b : LifecycleState} (h : a.canMoveTo b) :
    b.trail = a.trail ++ [(a, b)] := by
  cases a <;> cases b <;> first | rfl | cases h

theorem nodup_trail (a : LifecycleState) : a.trail.Nodup := by
  cases a <;> decide

theorem ne_active_of_canMoveTo {a b : LifecycleState} (h : a.canMoveTo b) : b ≠ active := by
  rintro rfl
  cases a <;> cases h

end LifecycleState

namespace Trigger

/-- A transition is made as a whole or not at all. -/
theorem transition_cases (a b : LifecycleState) (t : Trigger) :
    (t.transition a b = (true, { t with state := b }) ∧ a.canMoveTo b ∧ t.state = a) ∨
      t.transition a b = (false, t) := by
  unfold transition
  split
  · rename_i h
    exact Or.inl ⟨rfl, h⟩
  · exact Or.inr rfl

theorem transition_state_ne_active {a b : LifecycleState} {t : Trigger}
    (h : t.state ≠ .active) : (t.transition a b).2.state ≠ .active := by
  rcases transition_cases a b t with ⟨he, hm, -⟩ | he
  · rw [he]
    exact LifecycleState.ne_active_of_canMoveTo hm
  · rwa [he]

theorem beginDrain_state_ne_active (t : Trigger) : t.beginDrain.2.state ≠ .active := by
  unfold beginDrain transition
  split
  · simp
  · rename_i h
    exact fun ha => h ⟨rfl, ha⟩

theorem transition_fired (a b : LifecycleState) (t : Trigger) :
    (t.transition a b).2.fired = t.fired := by
  rcases transition_cases a b t with ⟨he, -⟩ | he <;> rw [he]

theorem transition_cancelled (a b : LifecycleState) (t : Trigger) :
    (t.transition a b).2.cancelled = t.cancelled := by
  rcases transition_cases a b t with ⟨he, -⟩ | he <;> rw [he]

theorem fire_of_fired {t : Trigger} {reason : CancelReason} (h : t.fired = true) :
    t.fire reason = (false, t.beginDrain.2, []) := by
  have hb : t.beginDrain.2.fired = true := (transition_fired _ _ _).trans h
  cases hd : t.beginDrain.2 with
  | mk state fired cancelled =>
    rw [hd] at hb
    obtain rfl : fired = true := hb
    simp [fire, claim, hd]

theorem fire_of_not_fired {t : Trigger} {reason : CancelReason} (h : t.fired = false) :
    t.fire reason =
    (true, { t.beginDrain.2 with fired := true, cancelled := true }, [fireRecord reason]) := by
  have hb : t.beginDrain.2.fired = false := (transition_fired _ _ _).trans h
  simp [fire, claim, cancel, hb]

/-- What can be called on a shared trigger. -/
inductive Call where
  | fire (reason : CancelReason)
  | beginDrain
  | transition (a b : LifecycleState)
  deriving DecidableEq, Repr

def perform (t : Trigger) : Call → Bool × Trigger × List Log.Record
  | .fire reason => t.fire reason
  | .beginDrain => (t.beginDrain.1, t.beginDrain.2, [])
  | .transition a b => ((t.transition a b).1, (t.transition a b).2, [])

def Call.move? : Call → Option (LifecycleState × LifecycleState)
  | .fire _ => none
  | .beginDrain => some (.active, .draining)
  | .transition a b => some (a, b)

/-- How far a call has come. A fire leaves the active state, claims the flag, writes its line and
cancels the token. -/
inductive Progress where
  | called
  | left
  | claimed
  | announced
  | returned (result : Bool)
  deriving DecidableEq, Repr

namespace Progress

def result? : Progress → Option Bool
  | returned r => some r
  | _ => none

def Waits : Progress → Prop
  | called | left => True
  | _ => False

/-- A fire has not come to the flag, or too late. -/
def Lags : Progress → Prop
  | called | left | returned false => True
  | _ => False

/-- What a fire that has claimed the flag has logged and cancelled. -/
def Leads (reason : CancelReason) (logs : List Log.Record) (cancelled : Bool) : Progress → Prop
  | claimed => logs = [] ∧ cancelled = false
  | announced => logs = [fireRecord reason] ∧ cancelled = false
  | returned true => logs = [fireRecord reason] ∧ cancelled = true
  | _ => False

theorem eq_returned {p : Progress} (h : p.result?.isSome) : ∃ r, p = .returned r := by
  cases p with
  | returned r => exact ⟨r, rfl⟩
  | _ => cases h

theorem Waits.lags {p : Progress} (h : p.Waits) : p.Lags := by
  cases p with
  | called => trivial
  | left => trivial
  | _ => cases h

end Progress

/-- A trigger with the calls under way, the moves that were made, by whom, and the lines. -/
structure Shared (ι : Type) where
  trigger : Trigger := {}
  progress : ι → Progress := fun _ => .called
  moves : List (ι × LifecycleState × LifecycleState) := []
  logs : List Log.Record := []

namespace Shared

variable {ι : Type}

section Run

variable [DecidableEq ι]

def exchange (s : Shared ι) (i : ι) (a b : LifecycleState) (next : Bool → Progress) : Shared ι :=
  let (moved, t) := s.trigger.transition a b
  { s with
    trigger := t
    progress := Function.update s.progress i (next moved)
    moves := if moved then s.moves ++ [(i, a, b)] else s.moves }

def swap (s : Shared ι) (i : ι) : Shared ι :=
  let (before, t) := s.trigger.claim
  { s with
    trigger := t
    progress := Function.update s.progress i (if before then .returned false else .claimed) }

def announce (s : Shared ι) (i : ι) (reason : CancelReason) : Shared ι :=
  { s with
    progress := Function.update s.progress i .announced
    logs := s.logs ++ [fireRecord reason] }

def cancel (s : Shared ι) (i : ι) : Shared ι :=
  { s with
    trigger := s.trigger.cancel
    progress := Function.update s.progress i (.returned true) }

def step (calls : ι → Call) (s : Shared ι) (i : ι) : Shared ι :=
  match calls i, s.progress i with
  | .transition a b, .called => s.exchange i a b .returned
  | .beginDrain, .called => s.exchange i .active .draining .returned
  | .fire _, .called => s.exchange i .active .draining fun _ => .left
  | .fire _, .left => s.swap i
  | .fire reason, .claimed => s.announce i reason
  | .fire _, .announced => s.cancel i
  | _, _ => s

def run (calls : ι → Call) (order : List ι) : Shared ι := order.foldl (step calls) {}

section Access

variable {s : Shared ι} {i j : ι} {a b : LifecycleState} {next : Bool → Progress}

theorem exchange_progress_self :
    (s.exchange i a b next).progress i = next (s.trigger.transition a b).1 :=
  Function.update_self i _ s.progress

theorem exchange_progress_of_ne (h : j ≠ i) : (s.exchange i a b next).progress j = s.progress j :=
  Function.update_of_ne h _ s.progress

theorem swap_progress_self :
    (s.swap i).progress i = if s.trigger.fired then .returned false else .claimed :=
  Function.update_self i _ s.progress

theorem swap_progress_of_ne (h : j ≠ i) : (s.swap i).progress j = s.progress j :=
  Function.update_of_ne h _ s.progress

end Access

/-- A call during which nobody else accesses the trigger. -/
theorem foldl_alone {calls : ι → Call} {s : Shared ι} {i : ι} (hp : s.progress i = .called) :
    ([i, i, i, i].foldl (step calls) s).progress i =
        .returned (s.trigger.perform (calls i)).1 ∧
      ([i, i, i, i].foldl (step calls) s).trigger = (s.trigger.perform (calls i)).2.1 ∧
      ([i, i, i, i].foldl (step calls) s).logs =
        s.logs ++ (s.trigger.perform (calls i)).2.2 := by
  cases hc : calls i with
  | transition a b => simp [step, hc, hp, exchange, perform]
  | beginDrain => simp [step, hc, hp, exchange, perform, beginDrain]
  | fire reason =>
    have hb : (s.trigger.transition .active .draining).2.fired = s.trigger.fired :=
      transition_fired _ _ _
    cases hf : s.trigger.fired with
    | false =>
      rw [hf] at hb
      simp [step, hc, hp, exchange, swap, announce, cancel, claim, perform, fire, hb, beginDrain]
    | true =>
      rw [hf] at hb
      simp [step, hc, hp, exchange, swap, claim, perform, fire, hb, beginDrain]

end Run

/-- What holds in whatever order the calls access the trigger. -/
structure Consistent (calls : ι → Call) (s : Shared ι) : Prop where
  trail : s.moves.map Prod.snd = s.trigger.state.trail
  moved : ∀ i m, (calls i).move? = some m → s.progress i = .returned true → (i, m) ∈ s.moves
  left : ∀ i reason, calls i = .fire reason → s.progress i ≠ .called →
    s.trigger.state ≠ .active
  unfired : s.trigger.fired = false → s.trigger.cancelled = false ∧ s.logs = [] ∧
    ∀ i reason, calls i = .fire reason → (s.progress i).Waits
  fired : s.trigger.fired = true → ∃ i reason, calls i = .fire reason ∧
    (s.progress i).Leads reason s.logs s.trigger.cancelled ∧
      ∀ j r, j ≠ i → calls j = .fire r → (s.progress j).Lags

namespace Consistent

variable {calls : ι → Call} {s : Shared ι} {i : ι}

theorem start : Consistent calls ({} : Shared ι) where
  trail := rfl
  moved _ _ _ h := by cases h
  left _ _ _ h := absurd rfl h
  unfired _ := ⟨rfl, rfl, fun _ _ _ => trivial⟩
  fired h := by cases h

theorem leads {reason : CancelReason} (h : Consistent calls s) (hc : calls i = .fire reason)
    (hp : ¬ (s.progress i).Lags) : s.trigger.fired = true ∧
      (s.progress i).Leads reason s.logs s.trigger.cancelled ∧
        ∀ j r, j ≠ i → calls j = .fire r → (s.progress j).Lags := by
  have hf : s.trigger.fired = true := by
    cases hf : s.trigger.fired with
    | false => exact absurd ((h.unfired hf).2.2 i reason hc).lags hp
    | true => rfl
  obtain ⟨k, r, hk, hleads, hlags⟩ := h.fired hf
  obtain rfl : k = i := by
    by_contra hki
    exact hp (hlags i reason (Ne.symm hki) hc)
  obtain rfl : r = reason := by
    rw [hk] at hc
    exact Call.fire.inj hc
  exact ⟨hf, hleads, hlags⟩

theorem of_fired (h : Consistent calls s) (hf : s.trigger.fired = true) :
    s.trigger.state ≠ .active := by
  obtain ⟨i, reason, hc, hleads, -⟩ := h.fired hf
  refine h.left i reason hc fun hp => ?_
  rw [hp] at hleads
  exact hleads

theorem fired_of_cancelled (h : Consistent calls s) (hcancel : s.trigger.cancelled = true) :
    s.trigger.fired = true := by
  cases hf : s.trigger.fired with
  | false => simp [(h.unfired hf).1] at hcancel
  | true => rfl

theorem eq_of_returned_true {j : ι} {reason reason' : CancelReason} (h : Consistent calls s)
    (hi : calls i = .fire reason) (hj : calls j = .fire reason')
    (hpi : s.progress i = .returned true) (hpj : s.progress j = .returned true) : i = j := by
  have ht : ¬ (s.progress i).Lags := by simp [hpi, Progress.Lags]
  obtain ⟨-, -, hlags⟩ := h.leads hi ht
  by_contra hij
  have hlate := hlags j reason' (Ne.symm hij) hj
  rw [hpj] at hlate
  exact hlate

theorem fired_of_returned {reason : CancelReason} {r : Bool} (h : Consistent calls s)
    (hc : calls i = .fire reason) (hr : s.progress i = .returned r) : s.trigger.fired = true := by
  cases hf : s.trigger.fired with
  | false =>
    have hwaits := (h.unfired hf).2.2 i reason hc
    rw [hr] at hwaits
    exact hwaits.elim
  | true => rfl

/-- When all calls have returned, the fire that leads has done everything and no other one has
done anything. -/
theorem of_returned {reason : CancelReason} (h : Consistent calls s)
    (hreturned : ∀ j, (s.progress j).result?.isSome) (hc : calls i = .fire reason) :
    ∃ k r, calls k = .fire r ∧ s.progress k = .returned true ∧
      (∀ j r', j ≠ k → calls j = .fire r' → s.progress j = .returned false) ∧
      s.logs = [fireRecord r] ∧ s.trigger.cancelled = true := by
  obtain ⟨_, hi⟩ := Progress.eq_returned (hreturned i)
  obtain ⟨k, r, hk, hleads, hlags⟩ := h.fired (h.fired_of_returned hc hi)
  obtain ⟨success, hsuccess⟩ := Progress.eq_returned (hreturned k)
  rw [hsuccess] at hleads
  obtain rfl : success = true := by
    cases success with
    | false => exact hleads.elim
    | true => rfl
  refine ⟨k, r, hk, hsuccess, fun j r' hjk hj => ?_, hleads⟩
  obtain ⟨result, hresult⟩ := Progress.eq_returned (hreturned j)
  have hlate := hlags j r' hjk hj
  rw [hresult] at hlate ⊢
  cases result with
  | false => rfl
  | true => exact hlate.elim

section Access

variable [DecidableEq ι]

theorem exchange {a b : LifecycleState} {next : Bool → Progress} (h : Consistent calls s)
    (hp : s.progress i = .called) (hmove : ∀ m, (calls i).move? = some m → m = (a, b))
    (hnext : ∀ moved, next moved = .returned true → moved = true)
    (hfire : ∀ reason, calls i = .fire reason →
      (a, b) = (.active, .draining) ∧ ∀ moved, next moved = .left) :
    Consistent calls (s.exchange i a b next) := by
  have hflag : (s.exchange i a b next).trigger.fired = s.trigger.fired := transition_fired a b _
  have htoken : (s.exchange i a b next).trigger.cancelled = s.trigger.cancelled :=
    transition_cancelled a b _
  constructor
  case trail =>
    rcases transition_cases a b s.trigger with ⟨he, hm, ha⟩ | he
    · simp [Shared.exchange, he, LifecycleState.trail_of_canMoveTo hm, h.trail, ha]
    · simp [Shared.exchange, he, h.trail]
  case moved =>
    intro j m hm hj
    by_cases hji : j = i
    · subst hji
      obtain rfl := hmove m hm
      rw [exchange_progress_self] at hj
      simp [Shared.exchange, hnext _ hj]
    · rw [exchange_progress_of_ne hji] at hj
      have hmem := h.moved j m hm hj
      simp only [Shared.exchange]
      split
      · exact List.mem_append_left _ hmem
      · exact hmem
  case left =>
    intro j reason hc hj
    by_cases hji : j = i
    · subst hji
      obtain ⟨hab, -⟩ := hfire reason hc
      cases hab
      exact beginDrain_state_ne_active s.trigger
    · rw [exchange_progress_of_ne hji] at hj
      exact transition_state_ne_active (h.left j reason hc hj)
  case unfired =>
    intro hf
    obtain ⟨hcancel, hlogs, hwaits⟩ := h.unfired (hflag ▸ hf)
    refine ⟨htoken.trans hcancel, hlogs, fun j reason hc => ?_⟩
    by_cases hji : j = i
    · subst hji
      rw [exchange_progress_self, (hfire reason hc).2]
      trivial
    · rw [exchange_progress_of_ne hji]
      exact hwaits j reason hc
  case fired =>
    intro hf
    obtain ⟨k, reason, hk, hleads, hlags⟩ := h.fired (hflag ▸ hf)
    have hki : k ≠ i := by
      rintro rfl
      rw [hp] at hleads
      exact hleads
    refine ⟨k, reason, hk, ?_, fun j r hjk hc => ?_⟩
    · rw [exchange_progress_of_ne hki, htoken]
      exact hleads
    · by_cases hji : j = i
      · subst hji
        rw [exchange_progress_self, (hfire r hc).2]
        trivial
      · rw [exchange_progress_of_ne hji]
        exact hlags j r hjk hc

theorem swap {reason : CancelReason} (h : Consistent calls s) (hc : calls i = .fire reason)
    (hp : s.progress i = .left) : Consistent calls (s.swap i) := by
  constructor
  case trail => exact h.trail
  case moved =>
    intro j m hm hj
    have hji : j ≠ i := by
      rintro rfl
      simp [hc, Call.move?] at hm
    rw [swap_progress_of_ne hji] at hj
    exact h.moved j m hm hj
  case left =>
    intro j r hcj hj
    by_cases hji : j = i
    · subst hji
      exact h.left j r hcj (by simp [hp])
    · rw [swap_progress_of_ne hji] at hj
      exact h.left j r hcj hj
  case unfired => exact fun hf => by cases hf
  case fired =>
    intro _
    cases hf : s.trigger.fired with
    | false =>
      obtain ⟨hcancel, hlogs, hwaits⟩ := h.unfired hf
      refine ⟨i, reason, hc, ?_, fun j r hji hcj => ?_⟩
      · rw [swap_progress_self, hf]
        exact ⟨hlogs, hcancel⟩
      · rw [swap_progress_of_ne hji]
        exact (hwaits j r hcj).lags
    | true =>
      obtain ⟨k, r, hk, hleads, hlags⟩ := h.fired hf
      have hki : k ≠ i := by
        rintro rfl
        rw [hp] at hleads
        exact hleads
      refine ⟨k, r, hk, ?_, fun j r' hjk hcj => ?_⟩
      · rw [swap_progress_of_ne hki]
        exact hleads
      · by_cases hji : j = i
        · subst hji
          rw [swap_progress_self, hf]
          trivial
        · rw [swap_progress_of_ne hji]
          exact hlags j r' hjk hcj

theorem proceed {reason : CancelReason} {t : Shared ι} (h : Consistent calls s)
    (hc : calls i = .fire reason) (hp : ¬ (s.progress i).Lags)
    (hstate : t.trigger.state = s.trigger.state) (hfired : t.trigger.fired = s.trigger.fired)
    (hmoves : t.moves = s.moves) (hothers : ∀ j, j ≠ i → t.progress j = s.progress j)
    (hleads : (t.progress i).Leads reason t.logs t.trigger.cancelled) : Consistent calls t := by
  obtain ⟨hf, -, hlags⟩ := h.leads hc hp
  constructor
  case trail => rw [hmoves, hstate, h.trail]
  case moved =>
    intro j m hm hj
    have hji : j ≠ i := by
      rintro rfl
      simp [hc, Call.move?] at hm
    rw [hmoves]
    exact h.moved j m hm (hothers j hji ▸ hj)
  case left =>
    intro j r hcj hj
    rw [hstate]
    by_cases hji : j = i
    · subst hji
      refine h.left j r hcj fun hcalled => hp ?_
      rw [hcalled]
      trivial
    · exact h.left j r hcj (hothers j hji ▸ hj)
  case unfired =>
    intro hf'
    rw [hfired, hf] at hf'
    cases hf'
  case fired =>
    refine fun _ => ⟨i, reason, hc, hleads, fun j r hji hcj => ?_⟩
    rw [hothers j hji]
    exact hlags j r hji hcj

theorem step (h : Consistent calls s) (i : ι) : Consistent calls (s.step calls i) := by
  cases hc : calls i with
  | transition a b =>
    cases hp : s.progress i with
    | called =>
      simp only [Shared.step, hc, hp]
      exact h.exchange hp (by simp [hc, Call.move?]) (by simp) (by simp [hc])
    | _ => simpa only [Shared.step, hc, hp] using h
  | beginDrain =>
    cases hp : s.progress i with
    | called =>
      simp only [Shared.step, hc, hp]
      exact h.exchange hp (by simp [hc, Call.move?]) (by simp) (by simp [hc])
    | _ => simpa only [Shared.step, hc, hp] using h
  | fire reason =>
    cases hp : s.progress i with
    | called =>
      simp only [Shared.step, hc, hp]
      exact h.exchange hp (by simp [hc, Call.move?]) (by simp) (by simp)
    | left =>
      simp only [Shared.step, hc, hp]
      exact h.swap hc hp
    | claimed =>
      have ht : ¬ (s.progress i).Lags := by simp [hp, Progress.Lags]
      obtain ⟨-, hleads, -⟩ := h.leads hc ht
      rw [hp] at hleads
      simp only [Shared.step, hc, hp]
      refine h.proceed hc ht rfl rfl rfl (fun j hji => Function.update_of_ne hji _ _) ?_
      simpa [announce, hleads.1] using ⟨rfl, hleads.2⟩
    | announced =>
      have ht : ¬ (s.progress i).Lags := by simp [hp, Progress.Lags]
      obtain ⟨-, hleads, -⟩ := h.leads hc ht
      rw [hp] at hleads
      simp only [Shared.step, hc, hp]
      refine h.proceed hc ht rfl rfl rfl (fun j hji => Function.update_of_ne hji _ _) ?_
      simpa [Shared.cancel, Trigger.cancel] using ⟨hleads.1, rfl⟩
    | returned r => simpa only [Shared.step, hc, hp] using h

theorem run (calls : ι → Call) (order : List ι) : Consistent calls (Shared.run calls order) := by
  have hfold (s : Shared ι) (h : Consistent calls s) :
      Consistent calls (order.foldl (Shared.step calls) s) := by
    induction order generalizing s with
    | nil => exact h
    | cons i order ih => exact ih _ (h.step i)
  exact hfold _ start

end Access
end Consistent

section Run

variable [DecidableEq ι]

theorem moves_prefix_step (calls : ι → Call) (s : Shared ι) (i : ι) :
    s.moves <+: (s.step calls i).moves := by
  have hex (a b : LifecycleState) (next : Bool → Progress) :
      s.moves <+: (s.exchange i a b next).moves := by
    simp only [exchange]
    split
    · exact List.prefix_append _ _
    · exact List.prefix_refl _
  unfold step
  split
  · exact hex _ _ _
  · exact hex _ _ _
  · exact hex _ _ _
  all_goals exact List.prefix_refl _

theorem moves_prefix_run (calls : ι → Call) (order more : List ι) :
    (run calls order).moves <+: (run calls (order ++ more)).moves := by
  have hfold (s : Shared ι) : s.moves <+: (more.foldl (step calls) s).moves := by
    induction more generalizing s with
    | nil => exact List.prefix_refl _
    | cons i more ih => exact (moves_prefix_step calls s i).trans (ih _)
  rw [run, run, List.foldl_append]
  exact hfold _

/-- What the accesses of some calls come to: every successful compare-and-exchange is a move of
the state, one fire at most returns true, and a call that is not interrupted is the whole call. -/
structure FiresOnce (calls : ι → Call) (order : List ι) : Prop where
  trail : (run calls order).moves.map Prod.snd = (run calls order).trigger.state.trail
  nodup : ((run calls order).moves.map Prod.snd).Nodup
  moved : ∀ i m, (calls i).move? = some m → (run calls order).progress i = .returned true →
    (i, m) ∈ (run calls order).moves
  kept : ∀ more, (run calls order).moves <+: (run calls (order ++ more)).moves
  fired : (run calls order).trigger.cancelled = true →
    (run calls order).trigger.fired = true ∧ (run calls order).trigger.state ≠ .active
  unique : ∀ i j reason reason', calls i = .fire reason → calls j = .fire reason' →
    (run calls order).progress i = .returned true →
      (run calls order).progress j = .returned true → i = j
  returned : (∀ i, ((run calls order).progress i).result?.isSome) →
    (∃ i reason, calls i = .fire reason) →
      ∃ i reason, calls i = .fire reason ∧ (run calls order).progress i = .returned true ∧
        (∀ j r, j ≠ i → calls j = .fire r → (run calls order).progress j = .returned false) ∧
        (run calls order).logs = [fireRecord reason] ∧
        (run calls order).trigger.cancelled = true
  alone : ∀ i, (run calls order).progress i = .called →
    (run calls (order ++ [i, i, i, i])).progress i =
        .returned ((run calls order).trigger.perform (calls i)).1 ∧
      (run calls (order ++ [i, i, i, i])).trigger =
        ((run calls order).trigger.perform (calls i)).2.1 ∧
      (run calls (order ++ [i, i, i, i])).logs =
        (run calls order).logs ++ ((run calls order).trigger.perform (calls i)).2.2

/-- Whatever the calls and the order of their accesses, the state moves from active to draining
to terminated and nowhere else, and the token is cancelled by one fire only. -/
theorem single_fire (calls : ι → Call) (order : List ι) : FiresOnce calls order := by
  have h := Consistent.run calls order
  constructor
  case trail => exact h.trail
  case nodup =>
    rw [h.trail]
    exact LifecycleState.nodup_trail _
  case moved => exact h.moved
  case kept => exact moves_prefix_run calls order
  case fired =>
    intro hcancel
    exact ⟨h.fired_of_cancelled hcancel, h.of_fired (h.fired_of_cancelled hcancel)⟩
  case unique => exact fun i j reason reason' => h.eq_of_returned_true
  case returned =>
    rintro hreturned ⟨i, reason, hc⟩
    exact h.of_returned hreturned hc
  case alone =>
    intro i hp
    simp only [run, List.foldl_append] at hp ⊢
    exact foldl_alone hp

end Run

def rivals : Fin 4 → Call :=
  ![.fire .sentinel, .fire .deadline, .beginDrain, .transition .draining .terminated]

/-- The deadline comes to the flag first, although the sentinel was called before it. -/
theorem single_fire_of_rivals : ∃ i reason, rivals i = .fire reason ∧
    (run rivals [0, 1, 1, 0, 3, 1, 2, 1]).progress i = .returned true ∧
    (∀ j r, j ≠ i → rivals j = .fire r →
      (run rivals [0, 1, 1, 0, 3, 1, 2, 1]).progress j = .returned false) ∧
    (run rivals [0, 1, 1, 0, 3, 1, 2, 1]).logs = [fireRecord reason] ∧
    (run rivals [0, 1, 1, 0, 3, 1, 2, 1]).trigger.cancelled = true :=
  (single_fire rivals [0, 1, 1, 0, 3, 1, 2, 1]).returned (by decide) ⟨0, .sentinel, rfl⟩

end Shared
end Trigger
end CaptureExport
