import CaptureExport.Proofs.Export.Rollback

/-! # Attempts, waits and lines

The failed attempts of a move follow one another, each but the last one with a wait after it, which
is cut short by cancellation. Number, time and lines of a move are determined by how its attempts
end.
-/

namespace CaptureExport

open FileSystem Move

/-! ## How attempts end -/

/-- How an attempt that nobody interferes with ends, by what the source gives when it is read. -/
def Attempt.ending (a : Attempt) (read : Except IoError Bytes) : Handles.Ending :=
  match a.result, read with
  | .panics message, _ => .panicked message
  | .fails _ _ cause, _ => .failed cause
  | .complete, .ok content => .copied content.length
  | .surplus _ cause, .ok _ => .failed cause
  | .complete, .error e => .failed e
  | .surplus _ _, .error e => .failed e

theorem Handles.attempt_ending {h : Handles} {compress : Bool} {a : Attempt} {fs : FileSystem}
    (ha : a.unlinks = none) : (h.attempt compress a fs).1 =
      a.ending ((fs.setContent h.output []).readOpened h.input) := by
  cases hr : (fs.setContent h.output []).readOpened h.input with
  | error e =>
    have hc : (h.rewind fs).1.copy compress (h.rewind fs).2 = _ := copy_unreadable hr
    cases hres : a.result <;> simp [attempt, Attempt.ending, ha, hres, hc]
  | ok data =>
    have hc : (h.rewind fs).1.copy compress (h.rewind fs).2 = _ := copy_rewound hr
    cases hres : a.result <;> simp [attempt, Attempt.ending, ha, hres, hc]

/-- The attempt fails, whatever it reads and whatever it writes before that. -/
def Attempt.Fails (a : Attempt) : Prop :=
  match a.result with
  | .fails _ _ _ | .surplus _ _ => True
  | _ => False

theorem Handles.attempt_failed {h : Handles} {compress : Bool} {a : Attempt} {fs : FileSystem}
    (ha : a.Fails) : ∃ e, (h.attempt compress a fs).1 = .failed e := by
  unfold attempt
  simp only
  split
  · exact ⟨_, rfl⟩
  · unfold Attempt.Fails at ha
    split at ha
    · rename_i hres
      simp only [hres]
      exact ⟨_, rfl⟩
    · rename_i hres
      simp only [hres]
      split
      · exact ⟨_, rfl⟩
      · exact ⟨_, rfl⟩
    · cases ha

namespace Retrying

open Handles (Ending)

section Account

variable (retry : RetryPolicy) (cancel : Option Instant) (ends : ℕ → Ending → Prop)

/-- Attempts that have failed one after the other, with their causes, and how many of the waits
after them have passed. -/
structure Failed (causes : List IoError) (waits : ℕ) : Prop where
  ends : ∀ k (hk : k < causes.length), ends k (.failed causes[k])
  bounded : causes.length < retry.attempts
  passed : ∀ c, cancel = some c → 0 < waits → waits * retry.delay < c

/-- How a series of attempts is concluded, after failed ones that were followed by a wait: by an
attempt that does not fail or is the last one, or by a cancellation during a wait. -/
inductive Concludes (causes : List IoError) : ℕ → Instant → Option Ending → Prop
  | settled {e : Ending} (h : Failed retry cancel ends causes causes.length)
      (he : ends causes.length e)
      (hlast : (∀ cause, e ≠ .failed cause) ∨ causes.length + 1 = retry.attempts) :
      Concludes causes (causes.length + 1) (causes.length * retry.delay) (some e)
  | cancelled {c : Instant} (h : Failed retry cancel ends causes (causes.length - 1))
      (hne : causes ≠ []) (hc : cancel = some c) (hle : c ≤ causes.length * retry.delay) :
      Concludes causes causes.length c none

end Account

section Lines

variable (mover : Mover) (source : Path) (options : MoveOptions)

def retryLines (causes : List IoError) : List Log.Record :=
  causes.mapIdx fun k (cause : IoError) => note mover source options .warn 0 cause
    s!"failed to COPY file at attempt {k + 1}: {source.display}"

def lastLines : Option Ending → List Log.Record
  | some (.copied bytes) =>
    [note mover source options .info bytes none s!"COPIED: {source.display}"]
  | some (.failed cause) =>
    [note mover source options .error 0 cause s!"failed to COPY file: {source.display}"]
  | some (.panicked message) =>
    [note mover source options .error 0 (IoError.other (TaskEnd.panicText message))
      s!"failed to COPY file: {source.display}"]
  | none => []

def deletionOf (denial : Option IoError) : Option (Except IoError Unit) :=
  if options.deleteOnSuccess then some (match denial with | some e => .error e | none => .ok ())
  else none

def deletionLines (bytes : ℕ) : Option (Except IoError Unit) → List Log.Record
  | none => []
  | some (.ok _) => [note mover source options .info bytes none s!"DELETED: {source.display}"]
  | some (.error e) =>
    [note mover source options .error bytes e s!"failed to DELETE file: {source.display}"]

def resultOf (attempts : ℕ) (deleted : Bool) : Option Ending → Except MoveError MoveReport
  | some (.copied bytes) => .ok ⟨target mover source options, bytes, attempts, deleted⟩
  | some (.failed cause) =>
    .error (.exhausted source (target mover source options) attempts cause)
  | some (.panicked message) =>
    .error (.exhausted source (target mover source options) attempts
      (.other (TaskEnd.panicText message)))
  | none => .error (.cancelled source attempts)

end Lines

section Counts

variable (mover : Mover) (source : Path) (options : MoveOptions) (plan : Plan)
  (cancel : Option Instant) (ends : ℕ → Ending → Prop)

/-- What time, plan and lines of a move tell when it is in a phase. -/
def Counts (x : Solo) : Phase → Prop
  | .starting | .opened _ => x.time = 0 ∧ x.plan = plan ∧ x.logs = []
  | .copying _ made => ∃ causes, causes.length = made ∧
    Failed mover.retry cancel ends causes made ∧ x.time = made * mover.retry.delay ∧
    x.plan = plan.drop made ∧ x.logs = retryLines mover source options causes
  | .waiting _ made => ∃ causes, causes.length = made ∧ causes ≠ [] ∧
    Failed mover.retry cancel ends causes (made - 1) ∧
    x.time = (made - 1) * mover.retry.delay ∧
    x.plan = plan.drop made ∧ x.logs = retryLines mover source options causes
  | .removing e => ∃ causes n last, Concludes mover.retry cancel ends causes n x.time last ∧
    resultOf mover source options n false last = .error e ∧ x.plan = plan.drop n ∧
    x.logs = retryLines mover source options causes ++ lastLines mover source options last
  | .deleting bytes n denial => ∃ causes, options.deleteOnSuccess = true ∧
    denial = plan.denialAfter n ∧
    Concludes mover.retry cancel ends causes n x.time (some (.copied bytes)) ∧
    x.plan = plan.drop n ∧ x.logs = retryLines mover source options causes ++
      lastLines mover source options (some (.copied bytes))
  | .ended (.error e) => ∃ causes n last,
    Concludes mover.retry cancel ends causes n x.time last ∧
    resultOf mover source options n false last = .error e ∧ x.plan = plan.drop n ∧
    x.logs = retryLines mover source options causes ++ lastLines mover source options last
  | .ended (.ok r) => ∃ causes deletion,
    Concludes mover.retry cancel ends causes r.attempts x.time (some (.copied r.bytes)) ∧
    (deletion.isSome ↔ options.deleteOnSuccess = true) ∧
    (r.deleted ↔ deletion = some (.ok ())) ∧
    (∀ e, plan.denialAfter r.attempts = some e → options.deleteOnSuccess = true →
      deletion = some (.error e)) ∧ x.plan = plan.drop r.attempts ∧
    x.logs = retryLines mover source options causes ++
      lastLines mover source options (some (.copied r.bytes)) ++
      deletionLines mover source options r.bytes deletion

end Counts

variable {mover : Mover} {source : Path} {options : MoveOptions} {plan : Plan}
  {cancel : Option Instant} {ends : ℕ → Ending → Prop} {x : Solo} {fs gs : FileSystem}
  {causes : List IoError} {cause : IoError} {made n : ℕ} {time : Instant} {last : Option Ending}

theorem getD_of_forall {P : Attempt → Prop} (h : ∀ a ∈ plan, P a) (hdefault : P {}) (k : ℕ) :
    P (plan.getD k {}) := by
  rw [List.getD_eq_getElem?_getD]
  cases hk : plan[k]? with
  | none => exact hdefault
  | some a => exact h a (List.mem_of_getElem? hk)

theorem retryLines_concat : retryLines mover source options (causes ++ [cause]) =
    retryLines mover source options causes ++ [note mover source options .warn 0 cause
      s!"failed to COPY file at attempt {causes.length + 1}: {source.display}"] := by
  simp only [retryLines, List.mapIdx_concat]

theorem Failed.concat (h : Failed mover.retry cancel ends causes causes.length)
    (he : ends causes.length (.failed cause))
    (hlt : causes.length + 1 < mover.retry.attempts) :
    Failed mover.retry cancel ends (causes ++ [cause]) causes.length := by
  refine ⟨fun k hk => ?_, by simpa using hlt, h.passed⟩
  rw [List.length_append, List.length_singleton] at hk
  by_cases hlast : k < causes.length
  · rw [List.getElem_append_left hlast]
    exact h.ends k hlast
  · obtain rfl : k = causes.length := by omega
    simpa using he

/-! ## Steps -/

theorem due_of_cut {hd : Handles} {c : Instant} {delay : Duration}
    (hp : x.phase = .waiting hd made) (hcancel : x.cancel = some c) (hearlier : x.time ≤ c)
    (hle : c ≤ x.time + delay) : x.due delay = c ∧ x.cancelledAt c = true := by
  simp [Solo.due, Solo.cancelledAt, hp, hcancel, Nat.max_eq_right hearlier, Nat.min_eq_left hle]

theorem due_of_passed {hd : Handles} (delay : Duration) (hp : x.phase = .waiting hd made)
    (hpassed : ∀ c, x.cancel = some c → x.time + delay < c) :
    x.due delay = x.time + delay ∧ x.cancelledAt (x.time + delay) = false := by
  cases hc : x.cancel with
  | none => simp [Solo.due, Solo.cancelledAt, hp, hc]
  | some c =>
    have hlt := hpassed c hc
    simp only [Solo.due, Solo.cancelledAt, hp, hc, decide_eq_false_iff_not, Nat.not_le]
    exact ⟨Nat.min_eq_right (Nat.le_trans (Nat.le_of_lt hlt) (Nat.le_max_right _ _)), hlt⟩

section Next

variable {hd : Handles} (hcancel : x.cancel = cancel)
include hcancel

theorem Counts.next_of_copying (hp : x.phase = .copying hd made)
    (h : Counts mover source options plan cancel ends x (.copying hd made))
    (hcancels : (plan.getD made {}).cancels = false)
    (he : ends made (hd.attempt options.compress (plan.getD made {}) x.files).1) :
    (x.next mover source options).cancel = cancel ∧
      Counts mover source options plan cancel ends (x.next mover source options)
        (x.next mover source options).phase := by
  obtain ⟨causes, rfl, hfailed, htime, hplan, hlogs⟩ := h
  have hupcoming : x.upcoming = (plan.getD causes.length {}, plan.drop (causes.length + 1)) := by
    simp only [Solo.upcoming, hp, hplan, Plan.next_drop]
  have hnow : x.due mover.retry.delay = causes.length * mover.retry.delay := by
    simp only [Solo.due, hp, htime]
  simp only [Solo.next, hupcoming, hcancels, hp, step, copyOnce, hnow, hlogs, Bool.false_eq_true,
    if_false, hcancel, true_and]
  generalize hd.attempt options.compress (plan.getD causes.length {}) x.files = r at he ⊢
  obtain ⟨ending, hd', gs⟩ := r
  have hsettled (hlast : (∀ cause, ending ≠ .failed cause) ∨
      causes.length + 1 = mover.retry.attempts) :
      Concludes mover.retry cancel ends causes (causes.length + 1)
        (causes.length * mover.retry.delay) (some ending) := .settled hfailed he hlast
  cases ending with
  | copied bytes =>
    have hc := hsettled (Or.inl (by simp))
    by_cases hdelete : options.deleteOnSuccess
    · simp only [hdelete, if_true]
      exact ⟨causes, hdelete, rfl, hc, rfl, rfl⟩
    · simp only [hdelete]
      exact ⟨causes, none, hc, by simp [hdelete], by simp, fun e _ h => absurd h hdelete, rfl,
        by simp [deletionLines, lastLines]⟩
  | panicked message =>
    exact ⟨causes, _, _, hsettled (Or.inl (by simp)), rfl, rfl, rfl⟩
  | failed cause =>
    simp only
    split
    · rename_i hle
      have hlast : causes.length + 1 = mover.retry.attempts := by
        have := hfailed.bounded
        omega
      exact ⟨causes, _, _, hsettled (Or.inr hlast), rfl, rfl, rfl⟩
    · rename_i hlt
      refine ⟨causes ++ [cause], by simp, by simp, ?_, rfl, rfl, ?_⟩
      · exact hfailed.concat he (Nat.not_le.mp hlt)
      · exact retryLines_concat.symm

theorem Counts.next_of_waiting (hp : x.phase = .waiting hd made)
    (h : Counts mover source options plan cancel ends x (.waiting hd made)) :
    (x.next mover source options).cancel = cancel ∧
      Counts mover source options plan cancel ends (x.next mover source options)
        (x.next mover source options).phase := by
  obtain ⟨causes, rfl, hne, hfailed, htime, hplan, hlogs⟩ := h
  have hsum : x.time + mover.retry.delay = causes.length * mover.retry.delay := by
    have hlen : causes.length - 1 + 1 = causes.length := by
      have := List.length_pos_iff.mpr hne
      omega
    rw [htime, ← Nat.succ_mul, Nat.succ_eq_add_one, hlen]
  have hupcoming : x.upcoming = ({}, x.plan) := by simp only [Solo.upcoming, hp]
  have hnext {now : Instant} (hdue : x.due mover.retry.delay = now) :
      x.next mover source options =
        { phase := if x.cancelledAt now then .removing (.cancelled source causes.length)
            else .copying hd causes.length
          time := now
          files := x.files
          plan := x.plan
          cancel := x.cancel
          logs := x.logs } := by
    simp only [Solo.next, hupcoming, hp, hdue, step, Bool.false_eq_true, if_false, List.append_nil]
  by_cases hcut : ∃ c, cancel = some c ∧ c ≤ causes.length * mover.retry.delay
  · obtain ⟨c, rfl, hle⟩ := hcut
    have hearlier : x.time ≤ c := by
      rw [htime]
      rcases Nat.eq_zero_or_pos (causes.length - 1) with hzero | hpos
      · simp [hzero]
      · exact Nat.le_of_lt (hfailed.passed c rfl hpos)
    obtain ⟨hdue, hcancelled⟩ := due_of_cut hp hcancel hearlier (hsum ▸ hle)
    rw [hnext hdue, if_pos hcancelled]
    exact ⟨hcancel, causes, _, none, .cancelled hfailed hne rfl hle, rfl, hplan,
      by simpa [lastLines] using hlogs⟩
  · have hpassed (c : Instant) (hc : cancel = some c) :
        causes.length * mover.retry.delay < c :=
      Nat.not_le.mp fun hle => hcut ⟨c, hc, hle⟩
    obtain ⟨hdue, hcancelled⟩ := due_of_passed mover.retry.delay hp
      fun c hc => hsum ▸ hpassed c (hcancel.symm.trans hc)
    rw [hnext hdue, hcancelled]
    exact ⟨hcancel, causes, rfl, ⟨hfailed.ends, hfailed.bounded, fun c hc _ => hpassed c hc⟩,
      hsum, hplan, hlogs⟩

end Next

theorem attempts_pos (retry : RetryPolicy) : 0 < retry.attempts :=
  Nat.lt_of_lt_of_le Nat.zero_lt_one (Nat.le_max_right _ _)

/-- The files and the account of a move that nothing keeps from copying. -/
structure Accounted (mover : Mover) (source : Path) (options : MoveOptions) (plan : Plan)
    (cancel : Option Instant) (ends : ℕ → Ending → Prop) (fs : FileSystem) (x : Solo) : Prop
    extends Solo.Tracked mover source options plan fs x where
  cancel_eq : x.cancel = cancel
  counts : Counts mover source options plan cancel ends x x.phase

section Run

variable {input : Opened} {id : FileId} (hs : fs.Sound)
  (hplan : plan.Spares fs (target mover source options))
  (hcancels : ∀ a ∈ plan, a.cancels = false) (hopen : fs.openRead source = .ok input)
  (hcreate : fs.createNew (target mover source options) = .ok (gs, id))
  (hends : ∀ x hd made, Solo.Tracked mover source options plan fs x →
    x.phase = .copying hd made →
      ends made (hd.attempt options.compress (plan.getD made {}) x.files).1)
include hs hplan hcancels hopen hcreate hends

theorem Accounted.next (h : Accounted mover source options plan cancel ends fs x)
    (hr : x.phase.result? = none) :
    Accounted mover source options plan cancel ends fs (x.next mover source options) := by
  have htracked := h.toTracked
  have hcancel := h.cancel_eq
  have hcounts := h.counts
  obtain ⟨made, -, htracks⟩ := h.tracks
  suffices hc : (x.next mover source options).cancel = cancel ∧
      Counts mover source options plan cancel ends (x.next mover source options)
        (x.next mover source options).phase from ⟨htracked.next hs hplan, hc.1, hc.2⟩
  cases hp : x.phase with
  | starting =>
    rw [hp] at hcounts htracks
    obtain ⟨htime, hrest, hlogs⟩ := hcounts
    have hfiles : x.files = fs := htracks
    simp only [Solo.next, Solo.upcoming, Solo.due, hp, step, openSource, hfiles, hopen]
    exact ⟨hcancel, htime, hrest, by simp [hlogs]⟩
  | opened input =>
    rw [hp] at hcounts htracks
    obtain ⟨htime, hrest, hlogs⟩ := hcounts
    have hfiles : x.files = fs := htracks.1
    simp only [Solo.next, Solo.upcoming, Solo.due, hp, step, createTarget, hfiles, hcreate]
    have hfailed : Failed mover.retry cancel ends [] 0 :=
      ⟨fun k hk => absurd hk (Nat.not_lt_zero k), attempts_pos mover.retry,
        fun _ _ hzero => absurd hzero (Nat.lt_irrefl 0)⟩
    exact ⟨hcancel, [], rfl, hfailed, by simp [htime], by simp [hrest],
      by simp [hlogs, retryLines]⟩
  | copying hd k =>
    rw [hp] at hcounts
    exact hcounts.next_of_copying hcancel hp (getD_of_forall hcancels rfl k)
      (hends x hd k htracked hp)
  | waiting hd k =>
    rw [hp] at hcounts
    exact hcounts.next_of_waiting hcancel hp
  | removing e =>
    rw [hp] at hcounts htracks
    obtain ⟨causes, n, last, hconcludes, hresult, hrest, hlogs⟩ := hcounts
    obtain ⟨loc, id, hheld⟩ := htracks
    simp only [Solo.next, Solo.upcoming, Solo.due, hp, step, removePartial, hheld.unlink_target.1]
    exact ⟨hcancel, causes, n, last, hconcludes, hresult, hrest, by simp [hlogs]⟩
  | deleting bytes n denial =>
    rw [hp] at hcounts
    obtain ⟨causes, hdelete, rfl, hconcludes, hrest, hlogs⟩ := hcounts
    simp only [Solo.next, Solo.upcoming, Solo.due, hp, step, deleteSource]
    cases hu : x.files.unlinkUnless (plan.denialAfter n) source with
    | ok gs =>
      refine ⟨hcancel, causes, some (.ok ()), hconcludes, by simp [hdelete], by simp,
        fun e he _ => ?_, hrest, by simp [hlogs, deletionLines]⟩
      simp [unlinkUnless, he] at hu
    | error e =>
      refine ⟨hcancel, causes, some (.error e), hconcludes, by simp [hdelete], by simp,
        fun e' he _ => ?_, hrest, by simp [hlogs, deletionLines]⟩
      obtain rfl : e' = e := by simpa [unlinkUnless, he] using hu
      rfl
  | ended r => simp [hp, Phase.result?] at hr

/-- A move whose source can be opened and whose target can be created is accounted for. -/
theorem move_accounted (cancel : Option Instant) : ∃ x r,
    Accounted mover source options plan cancel ends fs x ∧ x.phase = .ended r ∧
      mover.move source options plan cancel fs = ⟨r, x.time, x.files, x.plan, x.logs⟩ :=
  Mover.move_induction ⟨⟨⟨[], rfl, rfl⟩, rfl⟩, rfl, rfl, rfl, rfl⟩
    fun _ hx hr => hx.next hs hplan hcancels hopen hcreate hends hr

end Run

/-! ## Which attempt concludes a move -/

section Conclusion

variable {retry : RetryPolicy} {ending : ℕ → Ending} {k : ℕ}
  (h : Concludes retry cancel (fun k e => e = ending k) causes n time last)
  (hdelay : 0 < retry.delay) (hcancel : ∀ c : ℕ, cancel = some c → c = 0 ∨ ¬ retry.delay ∣ c)
include hdelay hcancel

theorem lt_of_cut {c : ℕ} (hc : cancel = some c) (hne : causes ≠ [])
    (hle : c ≤ causes.length * retry.delay) : c / retry.delay < causes.length := by
  rw [Nat.div_lt_iff_lt_mul hdelay]
  refine Nat.lt_of_le_of_ne hle ?_
  rintro rfl
  rcases hcancel _ hc with hzero | hdvd
  · exact absurd hzero (Nat.ne_of_gt (Nat.mul_pos (List.length_pos_iff.mpr hne) hdelay))
  · exact hdvd (Nat.dvd_mul_left _ _)

include h

/-- The first attempt that does not fail concludes the move, if it is made. -/
theorem Concludes.of_settling (hk : k < retry.attempts)
    (hin : ∀ c : ℕ, cancel = some c → k ≤ c / retry.delay)
    (hbefore : ∀ i < k, ∃ cause, ending i = .failed cause)
    (hat : ∀ cause, ending k ≠ .failed cause) :
    n = k + 1 ∧ time = k * retry.delay ∧ last = some (ending k) := by
  cases h with
  | settled hfailed he hlast =>
    rcases Nat.lt_trichotomy causes.length k with hlt | heq | hgt
    · obtain ⟨cause, hcause⟩ := hbefore _ hlt
      rcases hlast with hlast | hlast
      · exact absurd (he.trans hcause) (hlast cause)
      · omega
    · exact ⟨by rw [heq], by rw [heq], by rw [he, heq]⟩
    · exact absurd (hfailed.ends k hgt).symm (hat _)
  | cancelled hfailed hne hc hle =>
    have hcut := lt_of_cut hdelay hcancel hc hne hle
    have hmade := hin _ hc
    exact absurd (hfailed.ends k (by omega)).symm (hat _)

/-- A cancellation concludes the move when the attempts until then fail and there are others. -/
theorem Concludes.of_cancellation {c : ℕ} (hc : cancel = some c)
    (hlt : c / retry.delay + 1 < retry.attempts)
    (hbefore : ∀ i < c / retry.delay + 1, ∃ cause, ending i = .failed cause) :
    n = c / retry.delay + 1 ∧ time = c ∧ last = none := by
  cases h with
  | settled hfailed he hlast =>
    have hwaits : c / retry.delay < causes.length := by
      by_contra hle
      obtain ⟨cause, hcause⟩ := hbefore causes.length (by omega)
      rcases hlast with hlast | hlast
      · exact hlast cause (he.trans hcause)
      · omega
    have hpassed := hfailed.passed c hc (Nat.lt_of_le_of_lt (Nat.zero_le _) hwaits)
    have hle := (Nat.le_div_iff_mul_le hdelay).mpr (Nat.le_of_lt hpassed)
    omega
  | cancelled hfailed hne hc' hle =>
    obtain rfl := Option.some.inj (hc.symm.trans hc')
    have hcut := lt_of_cut hdelay hcancel hc hne hle
    have hmade : causes.length - 1 ≤ c / retry.delay := by
      rcases Nat.eq_zero_or_pos (causes.length - 1) with hzero | hpos
      · rw [hzero]
        exact Nat.zero_le _
      · exact (Nat.le_div_iff_mul_le hdelay).mpr (Nat.le_of_lt (hfailed.passed c hc hpos))
    exact ⟨by omega, rfl, rfl⟩

/-- The last attempt concludes the move when all of them fail and no wait is cut short. -/
theorem Concludes.of_exhaustion
    (hin : ∀ c : ℕ, cancel = some c → retry.attempts ≤ c / retry.delay + 1)
    (hall : ∀ i < retry.attempts, ∃ cause, ending i = .failed cause) :
    n = retry.attempts ∧ time = (retry.attempts - 1) * retry.delay ∧
      last = some (ending (retry.attempts - 1)) := by
  cases h with
  | settled hfailed he hlast =>
    obtain ⟨cause, hcause⟩ := hall _ hfailed.bounded
    rcases hlast with hlast | hlast
    · exact absurd (he.trans hcause) (hlast cause)
    · rw [← hlast, he]
      exact ⟨rfl, rfl, rfl⟩
  | cancelled hfailed hne hc hle =>
    have hcut := lt_of_cut hdelay hcancel hc hne hle
    have hmade := hin _ hc
    have hbounded := hfailed.bounded
    omega

end Conclusion

/-! ## The account of a move -/

section Move

variable (mover source options plan fs)

def endingAt (k : ℕ) : Ending := (plan.getD k {}).ending (fs.readFile source)

/-- A run of a move that makes so many attempts, takes so long, writes the lines of these attempts
and of the deletion, and ends like this. -/
structure Concluded (run : MoveRun) (n : ℕ) (time : Duration) (last : Option Ending) : Prop where
  result_eq : run.result = resultOf mover source options n
    (options.deleteOnSuccess && (plan.denialAfter n).isNone) last
  elapsed_eq : run.elapsed = time
  plan_eq : run.plan = plan.drop n
  attempts_le : n ≤ mover.retry.attempts
  counted : mover.retry.maxAttempts < Word.limit32 → n < Word.limit32
  logs_eq : ∃ causes, causes.length = (if last.isSome then n - 1 else n) ∧
    (∀ k (hk : k < causes.length), endingAt source plan fs k = .failed causes[k]) ∧
    run.logs = retryLines mover source options causes ++ lastLines mover source options last ++
      match last with
      | some (.copied bytes) => deletionLines mover source options bytes
          (deletionOf options (plan.denialAfter n))
      | _ => []

variable {mover source options plan fs}

theorem lt_limit32 {retry : RetryPolicy} (hn : n ≤ retry.attempts)
    (hmax : retry.maxAttempts < Word.limit32) : n < Word.limit32 :=
  Nat.lt_of_le_of_lt hn (Nat.max_lt.mpr ⟨hmax, by decide⟩)

theorem Concludes.length_eq (h : Concludes mover.retry cancel ends causes n time last) :
    n ≤ mover.retry.attempts ∧ causes.length = (if last.isSome then n - 1 else n) ∧
      ∀ k (hk : k < causes.length), ends k (.failed causes[k]) := by
  cases h with
  | settled hfailed _ _ => exact ⟨hfailed.bounded, rfl, hfailed.ends⟩
  | cancelled hfailed _ _ _ => exact ⟨Nat.le_of_lt hfailed.bounded, rfl, hfailed.ends⟩

theorem attempt_endingAt {hd : Handles} {k : ℕ} (hs : fs.Sound)
    (hunlinks : ∀ a ∈ plan, a.unlinks = none) (hx : Solo.Tracked mover source options plan fs x)
    (hp : x.phase = .copying hd k) :
    (hd.attempt options.compress (plan.getD k {}) x.files).1 = endingAt source plan fs k := by
  obtain ⟨before, -, htracks⟩ := hx.tracks
  rw [hp] at htracks
  obtain ⟨ho, loc, hheld⟩ := htracks
  rw [Handles.attempt_ending (getD_of_forall hunlinks rfl k), Tracks.readOpened_eq hs ho hheld,
    endingAt]

theorem deleted_eq_of_tracks {before : Plan} {denied : ℕ → Option IoError} {report : MoveReport}
    (hunlinks : ∀ a ∈ before, a.unlinks = none)
    (h : Tracks (before.Removes fs) denied mover source options fs (.ended (.ok report)) gs) :
    report.deleted = (options.deleteOnSuccess && (denied report.attempts).isNone) := by
  obtain ⟨-, copied, ⟨loc, id, content, hheld, hread, -⟩, -, hdeleted⟩ := h
  obtain ⟨i, ho, -⟩ := readFile_eq_ok hread
  obtain ⟨l, -, -, ⟨hu, -⟩ | ⟨-, -, hl⟩⟩ := hheld.differs.unlink_opened ho
  · rw [hdeleted]
    cases denied report.attempts <;> simp [unlinkUnless, hu, Except.isOk, Except.toBool]
  · exact absurd hl (Plan.not_removes hunlinks)

/-- While nobody interferes, the move is concluded by one of its attempts or a cancellation. -/
theorem exists_concluded {input : Opened} {id : FileId} (cancel : Option Instant) (hs : fs.Sound)
    (hplan : ∀ a ∈ plan, a.unlinks = none ∧ a.cancels = false)
    (hopen : fs.openRead source = .ok input)
    (hcreate : fs.createNew (target mover source options) = .ok (gs, id)) :
    ∃ causes n time last, Concludes mover.retry cancel
        (fun k e => e = endingAt source plan fs k) causes n time last ∧
      Concluded mover source options plan fs (mover.move source options plan cancel fs)
        n time last := by
  have hunlinks (a : Attempt) (ha : a ∈ plan) : a.unlinks = none := (hplan a ha).1
  obtain ⟨x, r, hx, hr, hmove⟩ := @move_accounted _ _ _ _
    (fun k e => e = endingAt source plan fs k) _ _ _ _ hs
    (Plan.spares_of_unlinks_eq_none hunlinks) (fun a ha => (hplan a ha).2) hopen hcreate
    (fun _ _ _ => attempt_endingAt hs hunlinks) cancel
  have hcounts := hx.counts
  obtain ⟨made, hmade, htracks⟩ := hx.tracks
  rw [hr] at hcounts htracks
  rw [hmove]
  cases r with
  | error e =>
    obtain ⟨causes, n, last, hconcludes, hresult, hrest, hlogs⟩ := hcounts
    obtain ⟨hle, hlen, hends⟩ := hconcludes.length_eq
    refine ⟨causes, n, x.time, last, hconcludes, ?_, rfl, hrest, hle, lt_limit32 hle, causes,
      hlen, fun k hk => (hends k hk).symm, ?_⟩
    · rw [← hresult]
      cases last with
      | none => rfl
      | some e => cases e <;> first | rfl | cases hresult
    · cases last with
      | none => simpa using hlogs
      | some e => cases e <;> first | simpa using hlogs | cases hresult
  | ok report =>
    obtain ⟨causes, deletion, hconcludes, hattempted, hdeletes, hdenied, hrest, hlogs⟩ := hcounts
    have htarget : report.target = target mover source options := htracks.1
    have hdeleted : report.deleted =
        (options.deleteOnSuccess && (plan.denialAfter report.attempts).isNone) :=
      deleted_eq_of_tracks (fun a ha => hunlinks a (hmade ▸ List.mem_append_left _ ha)) htracks
    obtain ⟨hle, hlen, hends⟩ := hconcludes.length_eq
    have hdeletion : deletion = deletionOf options (plan.denialAfter report.attempts) := by
      unfold deletionOf
      split
      · rename_i hdelete
        cases hdenial : plan.denialAfter report.attempts with
        | some e => exact hdenied e hdenial hdelete
        | none => exact hdeletes.mp (by simp [hdeleted, hdelete, hdenial])
      · rename_i hdelete
        exact Option.not_isSome_iff_eq_none.mp fun hd => hdelete (hattempted.mp hd)
    refine ⟨causes, report.attempts, x.time, _, hconcludes, ?_, rfl, hrest, hle, lt_limit32 hle,
      causes, hlen, fun k hk => (hends k hk).symm, ?_⟩
    · rw [resultOf, ← htarget, ← hdeleted]
    · rw [hlogs, hdeletion]

/-- What concludes a move by itself: its first attempt that does not fail, or else the cancellation
during a wait, or else the last attempt that the bound allows. -/
theorem move_concluded {input : Opened} {id : FileId} (hs : fs.Sound)
    (hplan : ∀ a ∈ plan, a.unlinks = none ∧ a.cancels = false)
    (hopen : fs.openRead source = .ok input)
    (hcreate : fs.createNew (target mover source options) = .ok (gs, id))
    (hdelay : 0 < mover.retry.delay)
    (hcancel : ∀ c : ℕ, cancel = some c → c = 0 ∨ ¬ mover.retry.delay ∣ c) :
    (∀ k < mover.retry.attempts, (∀ c : ℕ, cancel = some c → k ≤ c / mover.retry.delay) →
      (∀ i < k, ∃ cause, endingAt source plan fs i = .failed cause) →
      (∀ cause, endingAt source plan fs k ≠ .failed cause) →
      Concluded mover source options plan fs (mover.move source options plan cancel fs)
        (k + 1) (k * mover.retry.delay) (some (endingAt source plan fs k))) ∧
    (∀ c : ℕ, cancel = some c → c / mover.retry.delay + 1 < mover.retry.attempts →
      (∀ i < c / mover.retry.delay + 1, ∃ cause, endingAt source plan fs i = .failed cause) →
      Concluded mover source options plan fs (mover.move source options plan cancel fs)
        (c / mover.retry.delay + 1) c none) ∧
    ((∀ c : ℕ, cancel = some c → mover.retry.attempts ≤ c / mover.retry.delay + 1) →
      (∀ i < mover.retry.attempts, ∃ cause, endingAt source plan fs i = .failed cause) →
      Concluded mover source options plan fs (mover.move source options plan cancel fs)
        mover.retry.attempts ((mover.retry.attempts - 1) * mover.retry.delay)
        (some (endingAt source plan fs (mover.retry.attempts - 1)))) ∧
    ∀ (x : Exporter) active t, x.run active t plan cancel fs =
      if t.isTerminal ∧ active then
        ⟨.error (.refused t.source), 0, fs, plan, [t.refusalRecord]⟩
      else
        let run := x.mover.move t.source (x.optionsFor t) plan cancel fs
        { run with logs := t.startRecord :: run.logs ++ [t.endRecord run.result] } := by
  obtain ⟨causes, n, time, last, hconcludes, hconcluded⟩ :=
    exists_concluded cancel hs hplan hopen hcreate
  refine ⟨fun k hk hin hbefore hat => ?_, fun c hc hlt hbefore => ?_, fun hin hall => ?_,
    fun x active t => ?_⟩
  · obtain ⟨rfl, rfl, rfl⟩ := hconcludes.of_settling hdelay hcancel hk hin hbefore hat
    exact hconcluded
  · obtain ⟨rfl, rfl, rfl⟩ := hconcludes.of_cancellation hdelay hcancel hc hlt hbefore
    exact hconcluded
  · obtain ⟨rfl, rfl, rfl⟩ := hconcludes.of_exhaustion hdelay hcancel hin hall
    exact hconcluded
  · split
    · rename_i hrefused
      obtain ⟨hterminal, rfl⟩ := hrefused
      exact Exporter.run_refused hterminal
    · rename_i hrefused
      exact Exporter.run_eq_move hrefused

def patientMover : Mover := ⟨⟨[100]⟩, ⟨3, 2⟩⟩

def clumsyPlan : Plan := [{ result := .surplus [9] .missing }]

/-- The second attempt copies the file before the cancellation, which comes too late. -/
theorem move_concluded_of_late : strayFiles.Sound ∧
    Concluded patientMover ⟨[97]⟩ {} clumsyPlan strayFiles
      (patientMover.move ⟨[97]⟩ {} clumsyPlan (some 3) strayFiles) 2 2 (some (.copied 2)) := by
  have hs : strayFiles.Sound := by decide
  have hcancel (c : ℕ) (hc : some 3 = some c) : c = 0 ∨ ¬ patientMover.retry.delay ∣ c := by
    obtain rfl := Option.some.inj hc
    decide
  have hopen : strayFiles.openRead ⟨[97]⟩ = .ok (.file 0) := by decide
  have hcreate : strayFiles.createNew (target patientMover ⟨[97]⟩ {}) =
      .ok (strayFiles.insertFile [[97], [100]] []) := by decide
  have h := move_concluded hs (by decide : ∀ a ∈ clumsyPlan, _) hopen hcreate (by decide) hcancel
  have hfirst (i : ℕ) (hi : i < 1) :
      ∃ cause, endingAt ⟨[97]⟩ clumsyPlan strayFiles i = .failed cause := by
    obtain rfl : i = 0 := Nat.lt_one_iff.mp hi
    exact ⟨.missing, rfl⟩
  have hsecond : endingAt ⟨[97]⟩ clumsyPlan strayFiles 1 = .copied 2 := rfl
  refine ⟨hs, hsecond ▸ h.1 1 (by decide) (fun c hc => ?_) hfirst (by simp [hsecond])⟩
  obtain rfl := Option.some.inj hc
  decide

end Move

end Retrying
end CaptureExport
