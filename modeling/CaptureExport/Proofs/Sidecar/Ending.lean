import CaptureExport.Program
import CaptureExport.Proofs.Sidecar.Returns

/-! # The end of a run

Once the token is cancelled, in whatever order signals, sentinel, lock and deadline have come, the
run ends in the same way: nothing more is dispatched, the exports end before the source directory
is scanned, no export of the flush is refused, and the run terminates.
-/

namespace CaptureExport.Sidecar

open Log
open Instant (Overflows)

variable {x : Sidecar} {now : Instant} {s s₀ : State}

def unwatched (s : State) : State :=
  { s with logs := s.logs ++ s.watch.stop ++ inFlightRecord s.inFlight }

def awaited (x : Sidecar) (s : State) : State := x.join (unwatched s)

def setting (x : Sidecar) (s : State) : Flush.Setting where
  src := x.config.srcDir
  pattern := x.pattern
  exporter := x.exporter
  active := s.trigger.isActive

theorem Orderly.unwatched (h : Orderly s) : Orderly (unwatched s) := by
  refine h.of_acts (List.append_assoc ..) (.writes fun r hr => ?_) rfl rfl
  exact (List.mem_append.mp hr).elim (Watch.plain_stop r) (plain_inFlightRecord _ r)

theorem Orderly.awaited (h : Orderly s) :
    Orderly (x.awaited s) ∧ ∀ j ∈ (x.awaited s).exports, j.result?.isSome :=
  h.unwatched.join

theorem Stands.awaited {s' : State} (h : Stands s s') : Stands s (x.awaited s') :=
  ⟨h.cancelled, h.handled, h.tracker, h.tasks⟩

theorem Orderly.state_eq (h : Orderly s) (hc : s.trigger.cancelled = true) :
    s.trigger.state = .draining :=
  h.lawful.draining (h.lawful.cancelled_eq ▸ hc)

theorem inactive_setting (h : Orderly s) (hc : s.trigger.cancelled = true) :
    (x.setting s).active = false := by
  simp [setting, Trigger.isActive, h.state_eq hc]

theorem unrefused_flush (h : Orderly s) (hc : s.trigger.cancelled = true) :
    (Flush.exports (x.setting s) s.plan s.files 0).Unrefused :=
  Flush.unrefused_exports (inactive_setting h hc) 0

theorem finish_of_cancelled (h : Orderly s) (hc : s.trigger.cancelled = true) : x.finish s =
    { summary := (x.flush (x.awaited s)).summary
      trigger := { s.trigger with state := .terminated }
      files := (x.flush (x.awaited s)).files
      logs := (x.awaited s).logs ++ (x.flush (x.awaited s)).logs ++
        (reliefRecord s.relief :: coordinatorRecord s.coordinator.cancelled) ++
          [endRecord s.handled.length (x.flush (x.awaited s)).summary] } := by
  have hmove : (x.awaited s).trigger.transition .draining .terminated =
      (true, { s.trigger with state := .terminated }) := by
    have hs : (x.awaited s).trigger.state = .draining := h.state_eq hc
    rw [Trigger.transition, if_pos ⟨rfl, hs⟩]
    rfl
  change x.finish s = _
  unfold finish
  simp only [awaited, unwatched] at hmove ⊢
  simp only [hmove, if_true, List.append_nil]
  rfl

/-- A cancelled run announces its cancellation once, to its very end. -/
theorem announced_finish (h : Orderly s) (hc : s.trigger.cancelled = true) :
    Trigger.Announced true (x.finish s).logs := by
  have hbefore : Trigger.Announced (x.awaited s).trigger.fired (x.awaited s).logs :=
    h.awaited.1.announced
  have hfired : (x.awaited s).trigger.fired = true := h.lawful.cancelled_eq ▸ hc
  have hflush : ∀ r ∈ (x.flush (x.awaited s)).logs, r.Plain :=
    Flush.plain_run (inactive_setting h.awaited.1 hc)
  rw [hfired] at hbefore
  rw [finish_of_cancelled h hc]
  refine ((hbefore.append_plain hflush).append_plain ?_).append_plain ?_
  · exact List.forall_mem_cons.mpr ⟨plain_reliefRecord _, plain_coordinatorRecord _⟩
  · exact List.forall_mem_singleton.mpr (plain_endRecord _ _)

/-! ## All runs -/

/-- What a cancelled run that has come to a state ends with. -/
structure WellEnded (x : Sidecar) (now : Instant) (s₀ : State) (os : List Occurrence)
    (s : State) : Prop where
  announced : (x.finish s).logs.countP (·.begins "cancelling PCAP watcher") = 1
  undispatched : ∀ before after, os = before ++ after →
    (x.steps now s₀ before).trigger.cancelled = true →
      Stands (x.steps now s₀ before) (x.awaited s)
  exports_eq : (x.awaited s).exports.map Job.task = s.tasks.map some
  exports_ended : ∀ j ∈ (x.awaited s).exports, j.result?.isSome
  summary_eq : (x.finish s).summary = (x.flush (x.awaited s)).summary
  files_eq : (x.finish s).files = (x.flush (x.awaited s)).files
  unrefused : ∀ d, (Flush.exports (x.setting (x.awaited s)) (x.awaited s).plan (x.awaited s).files
    0).Reaches d → ∀ j ∈ d.jobs, ∀ p, j.result? ≠ some (.error (.refused p))
  unrefused_logs : ∀ r ∈ (x.finish s).logs, r.begins "refusing to flush" = false
  state_eq : (x.finish s).trigger.state = .terminated
  expected_logs : ∀ r ∈ (x.finish s).logs, r.begins "unexpected shutdown state" = false

/-- What holds of all runs from the start of the watch: the program ends without a failure when its
sidecar does, a script makes some run, what it takes for it to return, and how every run ends. -/
structure EndsWell (x : Sidecar) (now : Instant) (plan : Plan)
    (holder : Option (Location × Node)) (fs : FileSystem) (s₀ : State) : Prop where
  program : ∀ args env l commands, Program.launch args env = .ready l x.config →
    x = ofConfig x.config →
      Program.run args env now holder commands fs plan = (x.run now commands s₀).map
        fun e => .ofLogger l 0 "" (Program.startRecord :: e.logs) e.files
  performs : ∀ commands, ∃ os, Performs x now s₀ commands os
  returns_of_signal : ¬ Overflows now x.config.drainDeadline →
    ∀ commands g, .signal g ∈ commands → (x.run now commands s₀).isSome
  returns_of_announced : ∀ before c after, Announces (before.foldl (x.perform now) s₀) c →
    (x.run now (before ++ .change c :: after) s₀).isSome
  returns_of_sentinel : ∀ before c after dir,
    (before.foldl (x.perform now) s₀).watch.place = some dir →
      Watch.SentinelComes (before.foldl (x.perform now) s₀).files dir c →
        (x.run now (before ++ .change c :: after) s₀).isSome
  ended : ∀ os, (x.steps now s₀ os).trigger.cancelled = true →
    WellEnded x now s₀ os (x.steps now s₀ os)

theorem wellEnded (h₀ : Orderly s₀) {os : List Occurrence}
    (hc : (x.steps now s₀ os).trigger.cancelled = true) :
    WellEnded x now s₀ os (x.steps now s₀ os) := by
  have h : Orderly (x.steps now s₀ os) := h₀.steps os
  have ha : Trigger.Announced true (x.finish (x.steps now s₀ os)).logs := announced_finish h hc
  have hend : x.finish (x.steps now s₀ os) = _ := finish_of_cancelled h hc
  constructor
  case announced => exact ha.count_eq
  case undispatched =>
    rintro before after rfl hb
    rw [steps_append]
    exact (steps_stands hb after).awaited
  case exports_eq => exact h.awaited.1.exports_eq
  case exports_ended => exact h.awaited.2
  case summary_eq => rw [hend]
  case files_eq => rw [hend]
  case unrefused =>
    intro d hd j hj
    exact ((unrefused_flush h.awaited.1 hc).reaches hd).result_ne_refused hj
  case unrefused_logs =>
    have hhead : "refusing to flush".toList.head? ∈ [some 'r', some 'u'] := by simp
    exact ha.not_begins hhead
  case state_eq => rw [hend]
  case expected_logs =>
    have hhead : "unexpected shutdown state".toList.head? ∈ [some 'r', some 'u'] := by simp
    exact ha.not_begins hhead

theorem start_eq {plan : Plan} {holder : Option (Location × Node)} {fs : FileSystem}
    (h : (x.start now plan holder fs).1 = .ok s₀) :
    s₀.coordinator = .listening ∧ s₀.relief = x.reliefAt now := by
  unfold start at h
  split at h
  · cases h
  · cases h
    exact ⟨rfl, rfl⟩

theorem ends_well {plan : Plan} {holder : Option (Location × Node)} {fs : FileSystem}
    (hstart : (x.start now plan holder fs).1 = .ok s₀) : EndsWell x now plan holder fs s₀ where
  program args env l commands hl hx := by
    unfold Program.run
    rw [hl]
    simp only
    rw [← hx]
    cases hs : x.start now plan holder fs with
    | mk result logs =>
      rw [hs] at hstart
      cases hstart
      rfl
  performs commands := exists_performs x now commands s₀
  returns_of_signal hover _ _ :=
    run_isSome_of_signal (Orderly.start hstart) (start_eq hstart).1 hover
  returns_of_announced _ _ _ := run_isSome_of_announced (Orderly.start hstart)
  returns_of_sentinel _ _ _ _ hplace h :=
    run_isSome_of_announced (Orderly.start hstart) (announces_of_comes hplace h)
  ended _ := wellEnded (Orderly.start hstart)

/-- A script that returns has made a run that ends well. -/
theorem EndsWell.of_run {plan : Plan} {holder : Option (Location × Node)} {fs : FileSystem}
    (h : EndsWell x now plan holder fs s₀) {commands : List Command} {e : Ending}
    (hrun : x.run now commands s₀ = some e) : ∃ os, Performs x now s₀ commands os ∧
      let s := x.steps now s₀ (os ++ [.deadline])
      e = x.finish s ∧ WellEnded x now s₀ (os ++ [.deadline]) s := by
  obtain ⟨os, hperforms⟩ := h.performs commands
  rw [hperforms.run_eq] at hrun
  split at hrun
  · exact ⟨os, hperforms, (Option.some.inj hrun).symm, h.ended _ ‹_›⟩
  · cases hrun

def plainSidecar : Sidecar := .ofConfig {
  srcDir := .ofString "/s", dstDir := .ofString "/d", extensions := ["pcap"], compress := false
  delete := false, runtime := .run, interval := Duration.ofSeconds 60, retry := {}
  lockFile := .ofString "/l", drainDeadline := Duration.ofSeconds 3 }

def emptySource : FileSystem := ⟨[([[115]], .directory), ([[100]], .directory)], [], []⟩

def watching : State where
  files := emptySource
  logs := (plainSidecar.start 0 [] none emptySource).2
  watch := ⟨.ofString "/s", some [[115]]⟩

def sentinelWritten : FileSystem.Step := .write (.ofString "/s/TCPDUMPW_EXITED") []

/-- A sentinel ends the run, with a signal before it or without, and so does a signal alone although
there is no lock file. -/
theorem ends_well_of_sentinel : (plainSidecar.start 0 [] none emptySource).1 = .ok watching ∧
    (plainSidecar.run 0 [.signal .terminate] watching).isSome ∧
    (plainSidecar.run 0 [.signal .terminate, .change sentinelWritten] watching).isSome ∧
    ∃ e, plainSidecar.run 0 [.change sentinelWritten] watching = some e ∧
      e.logs.countP (·.begins "cancelling PCAP watcher") = 1 ∧ e.trigger.state = .terminated := by
  have hstart : (plainSidecar.start 0 [] none emptySource).1 = .ok watching := rfl
  have h := ends_well hstart
  have hover : ¬ Overflows 0 plainSidecar.config.drainDeadline := by decide
  have hcomes : Watch.SentinelComes watching.files [[115]] sentinelWritten := by
    constructor <;> decide +kernel
  obtain ⟨e, hrun⟩ := Option.isSome_iff_exists.mp (h.returns_of_sentinel [] _ [] _ rfl hcomes)
  obtain ⟨os, -, rfl, hended⟩ := h.of_run hrun
  exact ⟨hstart, h.returns_of_signal hover _ .terminate (by simp),
    h.returns_of_signal hover _ .terminate (by simp), _, hrun, hended.announced, hended.state_eq⟩

end CaptureExport.Sidecar
